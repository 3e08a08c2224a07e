import GraphqlCrud.Compilation.Snapshot
/-!
What happens in a run, event by event. Every run has a schedule: for each phase in turn what the
observers do before it, the phase, and what they do after it. Events happen in the order of the
schedule up to the first that stops the run. If the only observer takes snapshots, the run leaves
one for every phase that it completes.
-/
namespace GraphqlCrud

namespace Event

variable {κ : Type}

/-- The events happen one after another, and none of them stops the run. -/
inductive Passes : List (Event κ) → Progress κ → Progress κ → Prop
  | done (p : Progress κ) : Passes [] p p
  | next {event : Event κ} {rest : List (Event κ)} {p q r : Progress κ}
    (first : event p = (q, none)) (later : Passes rest q r) : Passes (event :: rest) p r

/-- How events in a given order end. Either all of them happen; or those happen that come before
some event, then that event stops the run, and those after it do not happen. -/
inductive Ends : List (Event κ) → Progress κ → Progress κ × Option Stop → Prop
  | passed {events : List (Event κ)} {p q : Progress κ} (all : Passes events p q) :
    Ends events p (q, none)
  | stopped {front rest : List (Event κ)} {event : Event κ} {p q r : Progress κ} {stop : Stop}
    (earlier : Passes front p q) (stops : event q = (r, some stop)) :
    Ends (front ++ event :: rest) p (r, some stop)

variable {events front rest : List (Event κ)} {event : Event κ} {p q : Progress κ}

theorem inTurn_of_pass (first : event p = (q, none)) (rest : List (Event κ)) :
    inTurn (event :: rest) p = inTurn rest q := by
  rw [inTurn, first]

theorem inTurn_of_stop {stop : Stop} (stops : event p = (q, some stop)) (rest : List (Event κ)) :
    inTurn (event :: rest) p = (q, some stop) := by
  rw [inTurn, stops]

theorem Passes.inTurn_append (h : Passes front p q) (rest : List (Event κ)) :
    inTurn (front ++ rest) p = inTurn rest q := by
  induction h with
  | done p => rfl
  | next first _ ih => rw [List.cons_append, inTurn_of_pass first, ih]

/-- Where the first event passes, all of them end as the others do. -/
theorem Ends.next {result : Progress κ × Option Stop} (first : event p = (q, none))
    (h : Ends rest q result) : Ends (event :: rest) p result := by
  cases h with
  | passed all => exact .passed (.next first all)
  | stopped earlier stops => exact .stopped (.next first earlier) stops

theorem ends_inTurn (events : List (Event κ)) (p : Progress κ) :
    Ends events p (inTurn events p) := by
  induction events generalizing p with
  | nil => exact .passed (.done p)
  | cons event rest ih =>
    rcases h : event p with ⟨q, _ | stop⟩
    · rw [inTurn_of_pass h]
      exact (ih q).next h
    · rw [inTurn_of_stop h]
      have earlier : Passes [] p p := .done p
      exact .stopped earlier h

theorem Ends.inTurn_eq {result : Progress κ × Option Stop} (h : Ends events p result) :
    inTurn events p = result := by
  cases h with
  | passed all => simpa using all.inTurn_append []
  | stopped earlier stops => rw [earlier.inTurn_append, inTurn_of_stop stops]

theorem inTurn_eq_iff {result : Progress κ × Option Stop} :
    inTurn events p = result ↔ Ends events p result := by
  constructor
  · rintro rfl
    exact ends_inTurn events p
  · exact Ends.inTurn_eq

theorem inTurn_eq_none_iff : (inTurn events p).2 = none ↔ ∃ q, Passes events p q := by
  constructor
  · intro none
    cases h : inTurn events p with
    | mk q stop =>
      rw [h] at none
      obtain rfl : stop = .none := none
      cases inTurn_eq_iff.mp h with
      | passed all => exact ⟨q, all⟩
  · rintro ⟨q, all⟩
    rw [(Ends.passed all).inTurn_eq]

end Event

namespace Phase

variable {κ : Type}

/-- The events of a phase: its observers come before it and after it in their own order. -/
def schedule (observers : List (Observer κ)) (phase : Phase) : List (Event κ) :=
  observers.map (·.before phase.name) ++ phase.event :: observers.map (·.after phase.name)

theorem observed_eq (observers : List (Observer κ)) (phase : Phase) (p : Progress κ) :
    phase.observed observers p = Event.inTurn (phase.schedule observers) p := by
  rw [schedule, Event.inTurn_append, observed]
  rcases before : Event.inTurn (observers.map (·.before phase.name)) p with ⟨q, _ | stop⟩
  · rw [Event.inTurn_of_pass before, Event.inTurn_of_pass before]
    rcases during : phase.event q with ⟨r, _ | stop⟩ <;> simp [Event.inTurn, during]
  · rw [Event.inTurn_of_stop before, Event.inTurn_of_stop before]

theorem inTurn_observed (observers : List (Observer κ)) (phases : List Phase) (p : Progress κ) :
    Event.inTurn (phases.map (observed observers)) p =
      Event.inTurn (phases.flatMap (schedule observers)) p := by
  induction phases generalizing p with
  | nil => rfl
  | cons phase rest ih =>
    have same := observed_eq observers phase p
    rw [List.flatMap_cons, Event.inTurn_append, List.map_cons]
    rcases scheduled : Event.inTurn (phase.schedule observers) p with ⟨q, _ | stop⟩
    · rw [Event.inTurn_of_pass (same.trans scheduled), ih, Event.inTurn_of_pass scheduled,
        Event.inTurn]
      rcases Event.inTurn (rest.flatMap (schedule observers)) q with ⟨r, _ | stop⟩ <;> rfl
    · rw [Event.inTurn_of_stop (same.trans scheduled), Event.inTurn_of_stop scheduled]

/-- The phases that a compilation goes through, each with what it makes of the compilation. The
first phase that stops the run is not completed. -/
def completed : List Phase → Compilation → List (Phase × Compilation)
  | [], _ => []
  | phase :: rest, c =>
    match phase.run c with
    | (c, none) => (phase, c) :: completed rest c
    | (_, some _) => []

theorem completed_of_stop {phase : Phase} {c : Compilation} {stop : Stop}
    (stops : (phase.run c).2 = some stop) (rest : List Phase) :
    completed (phase :: rest) c = [] := by
  rcases h : phase.run c with ⟨d, _ | other⟩
  · rw [h] at stops
    cases stops
  · rw [completed, h]

theorem completed_prefix (phases : List Phase) (c : Compilation) :
    (completed phases c).map (·.1) <+: phases := by
  induction phases generalizing c with
  | nil => exact List.nil_prefix
  | cons phase rest ih =>
    rw [completed]
    rcases phase.run c with ⟨d, _ | stop⟩
    · exact List.cons_prefix_cons.mpr ⟨rfl, ih d⟩
    · exact List.nil_prefix

end Phase

namespace Snapshot

variable {κ : Type}

/-- The observer of snapshots stops no run and changes no compilation. -/
theorem observed_observer (keep : κ → Snapshot → κ) (phase : Phase) (p : Progress κ) :
    phase.observed [observer keep] p =
      match phase.run p.compilation with
      | (c, none) => ({ compilation := c, notes := keep p.notes (take phase.name c) }, none)
      | (c, some stop) => ({ p with compilation := c }, some stop) := by
  have before : (observer keep).before phase.name p = (p, none) := rfl
  rw [Phase.observed_eq, Phase.schedule, List.map_cons, List.map_nil, List.singleton_append,
    Event.inTurn_of_pass before]
  rcases h : phase.run p.compilation with ⟨c, _ | stop⟩
  · have during : phase.event p = ({ p with compilation := c }, none) := by rw [Phase.event, h]
    rw [Event.inTurn_of_pass during]
    rfl
  · have during : phase.event p = ({ p with compilation := c }, some stop) := by
      rw [Phase.event, h]
    rw [Event.inTurn_of_stop during]

theorem notes_inTurn (keep : κ → Snapshot → κ) (phases : List Phase) (p : Progress κ) :
    (Event.inTurn (phases.map (Phase.observed [observer keep])) p).1.notes =
      ((Phase.completed phases p.compilation).map fun (phase, c) => take phase.name c).foldl keep
        p.notes := by
  induction phases generalizing p with
  | nil => rfl
  | cons phase rest ih =>
    rw [List.map_cons, Event.inTurn, observed_observer, Phase.completed]
    rcases phase.run p.compilation with ⟨c, _ | stop⟩
    · exact ih _
    · rfl

theorem stop_inTurn (keep : κ → Snapshot → κ) (phases : List Phase) (p : Progress κ) :
    (Event.inTurn (phases.map (Phase.observed [observer keep])) p).2 = none ↔
      (Phase.completed phases p.compilation).length = phases.length := by
  induction phases generalizing p with
  | nil => simp [Phase.completed]
  | cons phase rest ih =>
    rw [List.map_cons, Event.inTurn, observed_observer, Phase.completed]
    rcases phase.run p.compilation with ⟨c, _ | stop⟩
    · simpa using ih { compilation := c, notes := keep p.notes (take phase.name c) }
    · simp

/-- What holds of the snapshots that a run takes, given how the run ends. -/
structure AreTaken (lints : List Lint) (laterPhases : List Phase) (start : Compilation)
    (taken : List Snapshot) (stop : Option Stop) : Prop where
  /-- There is one for every phase that was completed. -/
  each : taken = (Phase.completed (Phase.validate lints :: Phase.analyze :: laterPhases) start).map
    fun (phase, c) => take phase.name c
  inOrder : taken.map (·.phase) <+:
    Lint.phase :: Phase.analysisName :: laterPhases.map (·.name)
  /-- There is one for every phase of the run exactly if nothing stopped it. -/
  whole : stop = none ↔ taken.length = laterPhases.length + 2
  /-- When the first is taken, no plan has been made. -/
  unplanned : ∀ s ∈ taken.head?, s.phase = Lint.phase ∧ s.plan = none
  /-- There is none if the validation stops the run. -/
  refused : ∀ cause, ((Phase.validate lints).run start).2 = some cause →
    stop = some cause ∧ taken = []

theorem phases_taken (phases : List Phase) (c : Compilation) :
    ((Phase.completed phases c).map fun (phase, c) => take phase.name c).map (·.phase) =
      ((Phase.completed phases c).map (·.1)).map (·.name) := by
  rw [List.map_map, List.map_map]
  rfl

/-- Validation comes first, and it makes no plan. -/
theorem head_taken (lints : List Lint) (rest : List Phase) (document : Schema.Document)
    (config : Config) {s : Snapshot}
    (h : s ∈ ((Phase.completed (Phase.validate lints :: rest) { document, config }).map
      fun (phase, c) => take phase.name c).head?) : s.phase = Lint.phase ∧ s.plan = none := by
  rw [Phase.completed] at h
  rcases validation : (Phase.validate lints).run { document, config } with ⟨c, _ | stop⟩
  · have linted : c = Phase.linted lints { document, config } :=
      (congrArg Prod.fst validation).symm
    rw [validation, List.map_cons, List.head?_cons, Option.mem_some_iff] at h
    subst h linted
    exact ⟨rfl, rfl⟩
  · rw [validation] at h
    cases h

end Snapshot

namespace Pipeline

variable {κ : Type}

/-- All events of a run in the order in which they are to happen. -/
def schedule (p : Pipeline κ) : List (Event κ) := p.phases.flatMap (Phase.schedule p.observers)

theorem run_eq_inTurn (p : Pipeline κ) (document : Schema.Document) (config : Config) (notes : κ) :
    p.run document config notes =
      Event.inTurn p.schedule { compilation := { document, config }, notes } :=
  Phase.inTurn_observed p.observers p.phases _

/-- Runs whose only observer puts snapshots behind those there are. -/
def ofSnapshots (lints : List Lint) (laterPhases : List Phase) : Pipeline (List Snapshot) :=
  { lints, laterPhases, observers := [Snapshot.observer fun kept snapshot => kept ++ [snapshot]] }

theorem exists_taken (lints : List Lint) (laterPhases : List Phase) (document : Schema.Document)
    (config : Config) (kept : List Snapshot) :
    ∃ taken,
      ((ofSnapshots lints laterPhases).run document config kept).1.notes = kept ++ taken ∧
        Snapshot.AreTaken lints laterPhases { document, config } taken
          ((ofSnapshots lints laterPhases).run document config kept).2 := by
  have behind (more : List Snapshot) :
      more.foldl (fun kept snapshot => kept ++ [snapshot]) kept = kept ++ more := by
    induction more generalizing kept with
    | nil => simp
    | cons s more ih => rw [List.foldl_cons, ih, List.append_assoc, List.singleton_append]
  refine ⟨_, (Snapshot.notes_inTurn _ _ _).trans (behind _), ?_⟩
  constructor
  case each => rfl
  case inOrder =>
    rw [Snapshot.phases_taken]
    exact (Phase.completed_prefix _ _).map _
  case whole =>
    rw [List.length_map]
    exact Snapshot.stop_inTurn _ _ _
  case unplanned => exact fun s hs => Snapshot.head_taken lints _ document config hs
  case refused =>
    intro cause stops
    have nothing := Phase.completed_of_stop stops (Phase.analyze :: laterPhases)
    refine ⟨?_, congrArg (List.map _) nothing⟩
    rcases validation : (Phase.validate lints).run { document, config } with ⟨c, _ | stop⟩
    · rw [validation] at stops
      cases stops
    · obtain rfl : stop = cause := by rw [validation] at stops; exact Option.some.inj stops
      have first := Snapshot.observed_observer (fun kept snapshot => kept ++ [snapshot])
        (Phase.validate lints) { compilation := { document, config }, notes := kept }
      rw [validation] at first
      exact congrArg Prod.snd (Event.inTurn_of_stop first _)

/-- A run does what is scheduled up to the first event that stops it, ends with that stop, and does
nothing after it; it succeeds exactly when no event stops it. Snapshots that are taken in a run show
its completed phases, and there are none if the validation stops it. -/
theorem run_followsSchedule (p : Pipeline κ) (document : Schema.Document) (config : Config)
    (notes : κ) :
    (∀ result, p.run document config notes = result ↔
      Event.Ends p.schedule { compilation := { document, config }, notes } result) ∧
    ((p.run document config notes).2 = none ↔
      ∃ q, Event.Passes p.schedule { compilation := { document, config }, notes } q) ∧
    ∀ lints laterPhases kept, ∃ taken,
      ((ofSnapshots lints laterPhases).run document config kept).1.notes = kept ++ taken ∧
        Snapshot.AreTaken lints laterPhases { document, config } taken
          ((ofSnapshots lints laterPhases).run document config kept).2 := by
  refine ⟨?_, ?_, ?_⟩
  · intro result
    rw [run_eq_inTurn]
    exact Event.inTurn_eq_iff
  · rw [run_eq_inTurn]
    exact Event.inTurn_eq_none_iff
  · intro lints laterPhases kept
    exact exists_taken lints laterPhases document config kept

end Pipeline
end GraphqlCrud
