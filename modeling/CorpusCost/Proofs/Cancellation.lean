import CorpusCost.Proofs.Reports
import CorpusCost.Proofs.RunInvariant
import CorpusCost.Proofs.SmallSteps

/-!
# Cancellation at any moment

A session is a search seen step by step. While a population is evaluated there is a flag that anyone
may set at any moment and that nobody clears. Each task looks at it before each candidate and returns
at once if it is set, so the tasks may leave a population that is evaluated in part. When all tasks
have returned or are done, the main loop looks at the flag once more. Only if it is not set it goes
on with the population: it ranks it, makes the report, and begins with the next generation.

Two things carry the proof. No step of a task changes what the task is bound to leave unless it
returns, and a task returns only if the flag is set (`Evaluates.bound`, `Evaluates.stayed`); so tasks
that have ended with the flag not set have left every candidate evaluated. And a flag that is set
stays set, so from then on an evaluation can only end with the search (`after_cancelled`).
-/

set_option autoImplicit false

namespace CorpusCost

variable {α σ τ : Type}

/-- A state that a search comes to has the reports of the generations before it. -/
theorem Search.Reaches.isReported [Ranked α] [WordSource σ] {config : SearchConfig α}
    {dataset : Dataset α} {schedule : Schedule} {observe : τ → GenerationReport α → τ}
    {observed : τ} {start : State α σ τ}
    (hstart : start.IsReported config dataset observe observed 0) {generation : Nat}
    {state : State α σ τ}
    (hreaches : Reaches config dataset schedule observe start generation state) :
    state.IsReported config dataset observe observed generation := by
  induction hreaches with
  | start => exact hstart
  | next _ _ hevaluate hrecord ih =>
    exact (ih.record? (Population.isComplete_of_evaluate? hevaluate) hrecord).breed _ _

/-! ## Tasks that look at the flag -/

/-- A task that may return before it is done. -/
structure Watcher (α : Type) where
  /-- The task. -/
  task : Task α
  /-- Whether it has seen the flag and returned. -/
  returned : Bool

/-- Whether a task is about to begin with a candidate. -/
def Task.isBeforeCandidate (task : Task α) : Bool :=
  match task.activity, task.waiting with
  | .idle, _ :: _ => true
  | _, _ => false

namespace Watcher

/-- A task at the beginning of its chunk. -/
def ofChunk (chunk : List (Individual α)) : Watcher α := ⟨.ofChunk chunk, false⟩

/-- Whether a task has returned or is done. -/
def isEnded (watcher : Watcher α) : Bool := watcher.returned || decide watcher.task.IsDone

/-- The chunk as a task leaves it that has ended: the candidates it has evaluated, and those it has
not come to. -/
def chunk (watcher : Watcher α) : List (Individual α) :=
  watcher.task.finished ++ watcher.task.waiting

variable [Scalar α] (dataset : Dataset α) (threshold : α)

/-- The task after its next step. Before a candidate it looks at the flag. -/
def step (cancelled : Bool) (watcher : Watcher α) : Watcher α :=
  if watcher.returned then watcher
  else if cancelled && watcher.task.isBeforeCandidate then { watcher with returned := true }
  else { watcher with task := watcher.task.step dataset threshold }

/-- What the task is bound to leave if it does not return. -/
def bound (watcher : Watcher α) : List (Individual α) := watcher.task.bound dataset threshold

/-- An upper end of the number of steps that the task has still to make. -/
def left (watcher : Watcher α) : Nat := if watcher.returned then 0 else watcher.task.left dataset

theorem bound_step (cancelled : Bool) (watcher : Watcher α) :
    (watcher.step dataset threshold cancelled).bound dataset threshold =
      watcher.bound dataset threshold := by
  unfold step
  split
  · rfl
  · split
    · rfl
    · exact watcher.task.bound_step dataset threshold

theorem returned_step {watcher : Watcher α} (hstayed : watcher.returned = false) :
    (watcher.step dataset threshold false).returned = false := by
  simp [step, hstayed]

/-- Every step brings the task nearer to its end. -/
theorem left_step (cancelled : Bool) (watcher : Watcher α) :
    (watcher.step dataset threshold cancelled).left dataset ≤ watcher.left dataset - 1 := by
  have hstep := watcher.task.left_step dataset threshold
  unfold step
  split
  · simp [left, *]
  · split <;> simp [left, *]

theorem isEnded_of_left {watcher : Watcher α} (hleft : watcher.left dataset = 0) :
    watcher.isEnded = true := by
  unfold left at hleft
  split at hleft
  · simp [isEnded, *]
  · have hdone := Task.isDone_of_left dataset hleft
    simp [isEnded, hdone]

omit [Scalar α] in
theorem isDone_of_isEnded {watcher : Watcher α} (hended : watcher.isEnded = true)
    (hstayed : watcher.returned = false) : watcher.task.IsDone := by
  rw [isEnded, hstayed, Bool.false_or] at hended
  exact of_decide_eq_true hended

/-- A task that is done has come to all candidates of its chunk. -/
theorem chunk_of_isDone {watcher : Watcher α} (hdone : watcher.task.IsDone) :
    watcher.chunk = watcher.bound dataset threshold := by
  rw [chunk, bound, Task.bound_of_isDone dataset threshold hdone, hdone.1, List.append_nil]

end Watcher

/-! ## Sessions -/

/-- Where a search is. -/
inductive Phase (α σ τ : Type) where
  /-- The population of a state is evaluated by tasks; `left` generations are left after it. -/
  | evaluating (generation left : Nat) (state : Search.State α σ τ) (tasks : List (Watcher α))
  /-- It has ended. -/
  | ended (found : SearchRun α σ τ)

/-- A search step by step. -/
structure Session (α σ τ : Type) where
  /-- The flag. -/
  cancelled : Bool
  /-- Where the search is. -/
  phase : Phase α σ τ

/-- What happens in a session. -/
inductive Event where
  /-- Someone sets the flag. -/
  | cancel
  /-- The task with this number makes a step. -/
  | work (task : Nat)
  /-- The main loop sees whether all tasks have ended, and goes on if they have. -/
  | join
  deriving DecidableEq, Repr

namespace Session

/-- What the observer has made of the reports so far. -/
def observed (session : Session α σ τ) : τ :=
  match session.phase with
  | .evaluating _ _ state _ => state.observed
  | .ended found => found.observed

variable [Ranked α] [WordSource σ]

/-- The beginning of a generation: each chunk of the population gets a task. Where no generation is
left the search ends. -/
def begin (config : SearchConfig α) (generation left : Nat) (state : Search.State α σ τ) :
    Phase α σ τ :=
  match left with
  | 0 => .ended (state.finish (Search.conclude config state.best state.history))
  | left + 1 =>
    .evaluating generation left state
      ((Chunk.split state.population.individuals config.workers).map Watcher.ofChunk)

/-- What the main loop does with a population that tasks have left. -/
def proceed (config : SearchConfig α) (observe : τ → GenerationReport α → τ)
    (generation left : Nat) (state : Search.State α σ τ) (population : Population α) :
    Phase α σ τ :=
  match state.record? config observe generation population.ranked with
  | none => .ended (state.finish (.error (.invalidConfig "population_size must be at least 1")))
  | some next => begin config (generation + 1) left (next.breed config generation left)

/-- The beginning of a search. -/
def start (config : SearchConfig α) (dataset : Dataset α) (observed : τ) (source : σ) :
    Session α σ τ :=
  if dataset.isEmpty then ⟨false, .ended ⟨.error .emptyDataset, observed, source⟩⟩
  else ⟨false, begin config 0 config.generations (Search.initial config observed source)⟩

section

variable (config : SearchConfig α) (dataset : Dataset α) (observe : τ → GenerationReport α → τ)

/-- The session after an event. The main loop looks at the flag when all tasks have ended. It does
not look at it again before the tasks of the next generation do, so what it does in between is one
step. -/
def step (session : Session α σ τ) (event : Event) : Session α σ τ :=
  match event, session.phase with
  | .cancel, _ => { session with cancelled := true }
  | .work number, .evaluating generation left state tasks =>
    let stepped := tasks.modify number (Watcher.step dataset config.threshold session.cancelled)
    { session with phase := .evaluating generation left state stepped }
  | .join, .evaluating generation left state tasks =>
    if tasks.all Watcher.isEnded then
      if session.cancelled then { session with phase := .ended (state.finish (.error .cancelled)) }
      else
        { session with
          phase := proceed config observe generation left state ⟨tasks.flatMap Watcher.chunk⟩ }
    else session
  | _, .ended _ => session

/-- The session after all events of a list. -/
def after (session : Session α σ τ) (events : List Event) : Session α σ τ :=
  events.foldl (step config dataset observe) session

end

/-! ## Evaluations under way -/

variable {config : SearchConfig α} {dataset : Dataset α} {observe : τ → GenerationReport α → τ}
  {observed : τ} {source : σ}

/-- What holds while the population of a generation is evaluated: a search comes to the state if
nobody stops an earlier generation, the tasks are bound to leave every candidate of the population
evaluated unless they return, and they have not returned while the flag is not set. -/
structure Evaluates (config : SearchConfig α) (dataset : Dataset α)
    (observe : τ → GenerationReport α → τ) (observed : τ) (source : σ) (cancelled : Bool)
    (generation left : Nat) (state : Search.State α σ τ) (tasks : List (Watcher α)) : Prop where
  reaches : ∀ schedule : Schedule, (∀ earlier < generation, .stop ∉ schedule earlier) →
    Search.Reaches config dataset schedule observe (Search.initial config observed source)
      generation state
  left : generation + (left + 1) = config.generations
  bound : tasks.flatMap (Watcher.bound dataset config.threshold) =
    (state.population.evaluated dataset config.threshold).individuals
  stayed : cancelled = false → ∀ task ∈ tasks, task.returned = false

/-- What holds when a search has ended: it is the search that nobody stops, or the flag is set and it
is a search that someone stops in one of its generations. -/
def EndsAs (config : SearchConfig α) (dataset : Dataset α)
    (observe : τ → GenerationReport α → τ) (observed : τ) (source : σ) (cancelled : Bool)
    (found : SearchRun α σ τ) : Prop :=
  found = Search.run config dataset Schedule.plain observe observed source ∨
    cancelled = true ∧ found.outcome = .error .cancelled ∧
      ∃ generation < config.generations,
        found = Search.run config dataset (Schedule.stoppedFrom generation) observe observed source

/-- What holds of every session. -/
def IsSound (config : SearchConfig α) (dataset : Dataset α)
    (observe : τ → GenerationReport α → τ) (observed : τ) (source : σ)
    (session : Session α σ τ) : Prop :=
  match session.phase with
  | .evaluating generation left state tasks =>
    dataset.isEmpty = false ∧
      Evaluates config dataset observe observed source session.cancelled generation left state tasks
  | .ended found => EndsAs config dataset observe observed source session.cancelled found

/-- Tasks that have ended with the flag not set have left every candidate evaluated. -/
theorem Evaluates.complete {generation left : Nat} {state : Search.State α σ τ}
    {tasks : List (Watcher α)}
    (hevaluates : Evaluates config dataset observe observed source false generation left state
      tasks) (hended : ∀ task ∈ tasks, task.isEnded = true) :
    (∀ task ∈ tasks, task.task.IsDone) ∧
      tasks.flatMap Watcher.chunk =
        (state.population.evaluated dataset config.threshold).individuals := by
  have hdone : ∀ task ∈ tasks, task.task.IsDone := fun task htask =>
    Watcher.isDone_of_isEnded (hended task htask) (hevaluates.stayed rfl task htask)
  refine ⟨hdone, ?_⟩
  rw [← hevaluates.bound, List.flatMap_def, List.flatMap_def]
  refine congrArg List.flatten (List.map_congr_left fun task htask => ?_)
  exact Watcher.chunk_of_isDone dataset config.threshold (hdone task htask)

/-- A step of a task keeps what holds of the evaluation. -/
theorem Evaluates.work {cancelled : Bool} {generation left : Nat} {state : Search.State α σ τ}
    {tasks : List (Watcher α)}
    (hevaluates : Evaluates config dataset observe observed source cancelled generation left state
      tasks) (number : Nat) :
    Evaluates config dataset observe observed source cancelled generation left state
      (tasks.modify number (Watcher.step dataset config.threshold cancelled)) where
  reaches := hevaluates.reaches
  left := hevaluates.left
  bound := (flatMap_modify (Watcher.bound_step dataset config.threshold cancelled) tasks
    number).trans hevaluates.bound
  stayed := by
    rintro rfl task htask
    obtain ⟨position, hposition⟩ := List.mem_iff_getElem?.mp htask
    rw [List.getElem?_modify] at hposition
    obtain ⟨before, hbefore, rfl⟩ := Option.map_eq_some_iff.mp hposition
    have hstayed := hevaluates.stayed rfl before (List.mem_of_getElem? hbefore)
    split
    · exact Watcher.returned_step dataset config.threshold hstayed
    · exact hstayed

/-- A generation that a search comes to begins an evaluation, or ends the search where none is
left. -/
theorem isSound_begin (hworkers : 0 < config.workers) (hdataset : dataset.isEmpty = false)
    {cancelled : Bool} {generation left : Nat} {state : Search.State α σ τ}
    (hreaches : ∀ schedule : Schedule, (∀ earlier < generation, .stop ∉ schedule earlier) →
      Search.Reaches config dataset schedule observe (Search.initial config observed source)
        generation state)
    (hleft : generation + left = config.generations) :
    IsSound config dataset observe observed source ⟨cancelled, begin config generation left state⟩ := by
  cases left with
  | zero =>
    refine .inl ?_
    rw [Search.run_eq config _ observe observed source hdataset,
      (hreaches Schedule.plain (by simp [Schedule.plain])).runFrom_eq,
      show config.generations - generation = 0 by omega]
    rfl
  | succ left =>
    refine ⟨hdataset, hreaches, hleft, ?_, ?_⟩
    · rw [List.flatMap_map]
      have hchunk : ∀ chunk : List (Individual α),
          (Watcher.ofChunk chunk).bound dataset config.threshold =
            chunk.map (Individual.evaluated dataset config.threshold) :=
        Task.bound_ofChunk dataset config.threshold
      simp only [hchunk]
      rw [List.flatMap_def, ← List.map_flatten, Chunk.flatten_split _ hworkers]
      rfl
    · intro _ task htask
      obtain ⟨chunk, -, rfl⟩ := List.mem_map.mp htask
      rfl

/-- With a population that is evaluated the search goes on as a search that nobody stops does. -/
theorem isSound_proceed (hworkers : 0 < config.workers) (hdataset : dataset.isEmpty = false)
    {generation left : Nat} {state : Search.State α σ τ} {tasks : List (Watcher α)}
    (hevaluates : Evaluates config dataset observe observed source false generation left state
      tasks) :
    IsSound config dataset observe observed source
      ⟨false, proceed config observe generation left state
        (state.population.evaluated dataset config.threshold)⟩ := by
  have hnumber := hevaluates.left
  have hevaluate : ∀ schedule : Schedule, .stop ∉ schedule generation →
      state.population.evaluate? config dataset (schedule generation) =
        some (state.population.evaluated dataset config.threshold) := by
    intro schedule hschedule
    rw [state.population.evaluate?_eq dataset hworkers, if_neg hschedule]
  unfold proceed
  cases hrecord : state.record? config observe generation
      (state.population.evaluated dataset config.threshold).ranked with
  | none =>
    refine .inl ?_
    have hplain : .stop ∉ Schedule.plain generation := by simp [Schedule.plain]
    rw [Search.run_eq config _ observe observed source hdataset,
      (hevaluates.reaches Schedule.plain (by simp [Schedule.plain])).runFrom_eq,
      show config.generations - generation = left + 1 by omega, Search.runFrom,
      hevaluate Schedule.plain hplain]
    simp only [hrecord]
  | some next =>
    refine isSound_begin hworkers hdataset ?_ (by omega)
    intro schedule hschedule
    have hnext := (hevaluates.reaches schedule
      (fun earlier hearlier => hschedule earlier (by omega))).next (by omega)
        (hevaluate schedule (hschedule generation (by omega))) hrecord
    rwa [show config.generations - (generation + 1) = left by omega] at hnext

/-- An evaluation that ends with the flag set ends the search as one that is stopped there. -/
theorem Evaluates.endsAs (hworkers : 0 < config.workers) (hdataset : dataset.isEmpty = false)
    {generation left : Nat} {state : Search.State α σ τ} {tasks : List (Watcher α)}
    (hevaluates : Evaluates config dataset observe observed source true generation left state
      tasks) :
    EndsAs config dataset observe observed source true (state.finish (.error .cancelled)) := by
  have hnumber := hevaluates.left
  refine .inr ⟨rfl, rfl, generation, by omega, ?_⟩
  have hearlier : ∀ earlier < generation, .stop ∉ Schedule.stoppedFrom generation earlier := by
    intro earlier hearlier
    simp [Schedule.stoppedFrom, hearlier]
  have hstop : .stop ∈ Schedule.stoppedFrom generation generation := by
    simp [Schedule.stoppedFrom]
  rw [Search.run_eq config _ observe observed source hdataset,
    (hevaluates.reaches _ hearlier).runFrom_eq,
    show config.generations - generation = left + 1 by omega, Search.runFrom,
    state.population.evaluate?_eq dataset hworkers, if_pos hstop]

/-! ## Every session -/

theorem isSound_start (hworkers : 0 < config.workers) :
    IsSound config dataset observe observed source (start config dataset observed source) := by
  unfold start
  split
  · rename_i hdataset
    refine .inl ?_
    simp [Search.run, hdataset]
  · rename_i hdataset
    have hdataset : dataset.isEmpty = false := by simpa using hdataset
    exact isSound_begin hworkers hdataset (fun _ _ => .start) (by omega)

/-- Every event keeps what holds of a session. -/
theorem IsSound.step (hworkers : 0 < config.workers) {session : Session α σ τ}
    (hsound : IsSound config dataset observe observed source session) (event : Event) :
    IsSound config dataset observe observed source
      (session.step config dataset observe event) := by
  obtain ⟨cancelled, phase⟩ := session
  cases phase with
  | ended found =>
    cases event with
    | cancel => exact hsound.imp_right fun hstopped => ⟨rfl, hstopped.2⟩
    | work number => exact hsound
    | join => exact hsound
  | evaluating generation left state tasks =>
    obtain ⟨hdataset, hevaluates⟩ := hsound
    cases event with
    | cancel =>
      exact ⟨hdataset, hevaluates.reaches, hevaluates.left, hevaluates.bound, nofun⟩
    | work number => exact ⟨hdataset, hevaluates.work number⟩
    | join =>
      by_cases hended : tasks.all Watcher.isEnded = true
      · cases cancelled with
        | true =>
          have hends := hevaluates.endsAs hworkers hdataset
          simpa [IsSound, Session.step, hended] using hends
        | false =>
          have hcomplete := (hevaluates.complete (List.all_eq_true.mp hended)).2
          have hnext := isSound_proceed hworkers hdataset hevaluates
          simpa [Session.step, hended, hcomplete] using hnext
      · have hsame : Session.step config dataset observe
            ⟨cancelled, .evaluating generation left state tasks⟩ .join =
              ⟨cancelled, .evaluating generation left state tasks⟩ := by
          simp only [Session.step, if_neg hended]
        rw [hsame]
        exact ⟨hdataset, hevaluates⟩

theorem IsSound.after (hworkers : 0 < config.workers) {session : Session α σ τ}
    (hsound : IsSound config dataset observe observed source session) (events : List Event) :
    IsSound config dataset observe observed source
      (session.after config dataset observe events) := by
  induction events generalizing session with
  | nil => exact hsound
  | cons event events ih => exact ih (hsound.step hworkers event)

/-! ## Reports -/

/-- Whatever happens, the observer has been shown reports about evaluated candidates alone. -/
theorem IsSound.isShown {session : Session α σ τ}
    (hsound : IsSound config dataset observe observed source session) :
    Search.IsShown config dataset observe observed session.observed := by
  obtain ⟨cancelled, phase⟩ := session
  cases phase with
  | ended found =>
    rcases hsound with rfl | ⟨-, -, generation, -, rfl⟩
    · exact Search.isShown_run config dataset _ observe observed source
    · exact Search.isShown_run config dataset _ observe observed source
  | evaluating generation left state tasks =>
    have hreaches := hsound.2.reaches Schedule.plain (by simp [Schedule.plain])
    exact (hreaches.isReported (Search.isReported_initial config dataset observe observed
      source)).isShown

/-! ## After the flag is set -/

theorem after_ended (found : SearchRun α σ τ) (events : List Event) :
    after config dataset observe ⟨true, .ended found⟩ events = ⟨true, .ended found⟩ := by
  induction events with
  | nil => rfl
  | cons event events ih =>
    have hsame : step config dataset observe ⟨true, .ended found⟩ event = ⟨true, .ended found⟩ := by
      cases event <;> rfl
    rw [after, List.foldl_cons, hsame]
    exact ih

/-- Once the flag is set, the evaluation that is under way goes on without a report, each step of a
task taking one from the steps it has left, or has ended the search. -/
theorem after_cancelled (config : SearchConfig α) (dataset : Dataset α)
    (observe : τ → GenerationReport α → τ) (generation left : Nat) (state : Search.State α σ τ)
    (tasks : List (Watcher α)) (events : List Event) :
    (∃ later, after config dataset observe ⟨true, .evaluating generation left state tasks⟩ events =
        ⟨true, .evaluating generation left state later⟩ ∧
      ∀ number, ∀ task ∈ later[number]?, ∃ before ∈ tasks[number]?,
        task.left dataset ≤ before.left dataset - events.count (.work number)) ∨
      after config dataset observe ⟨true, .evaluating generation left state tasks⟩ events =
        ⟨true, .ended (state.finish (.error .cancelled))⟩ := by
  induction events generalizing tasks with
  | nil => exact .inl ⟨tasks, rfl, fun number task htask => ⟨task, htask, Nat.le_refl _⟩⟩
  | cons event events ih =>
    rw [after, List.foldl_cons]
    cases event with
    | cancel =>
      refine (ih tasks).imp_left fun ⟨later, hlater, hleft⟩ => ⟨later, hlater, ?_⟩
      simpa using hleft
    | work number =>
      have hrest := ih (tasks.modify number (Watcher.step dataset config.threshold true))
      refine hrest.imp_left fun ⟨later, hlater, hleft⟩ => ⟨later, hlater, ?_⟩
      intro other task htask
      obtain ⟨middle, hmiddle, hmore⟩ := hleft other task htask
      rw [List.getElem?_modify] at hmiddle
      obtain ⟨before, hbefore, rfl⟩ := Option.map_eq_some_iff.mp hmiddle
      refine ⟨before, hbefore, ?_⟩
      have hstep := before.left_step dataset config.threshold true
      by_cases hnumber : number = other
      · subst hnumber
        rw [if_pos rfl] at hmore
        rw [List.count_cons_self]
        omega
      · rw [if_neg hnumber] at hmore
        rwa [List.count_cons_of_ne (by simpa using hnumber)]
    | join =>
      by_cases hended : tasks.all Watcher.isEnded = true
      · have hjoin : step config dataset observe ⟨true, .evaluating generation left state tasks⟩
            .join = ⟨true, .ended (state.finish (.error .cancelled))⟩ := by
          simp [step, hended]
        rw [hjoin]
        exact .inr (after_ended _ events)
      · have hjoin : step config dataset observe ⟨true, .evaluating generation left state tasks⟩
            .join = ⟨true, .evaluating generation left state tasks⟩ := by
          simp [step, hended]
        rw [hjoin]
        refine (ih tasks).imp_left fun ⟨later, hlater, hleft⟩ => ⟨later, hlater, ?_⟩
        simpa using hleft

/-- Once the flag is set and the tasks get to make as many steps as they have left, the main loop
ends the search. -/
theorem after_cancelled_join {generation left : Nat} {state : Search.State α σ τ}
    {tasks : List (Watcher α)} {events : List Event}
    (hfair : ∀ number, ∀ task ∈ tasks[number]?, task.left dataset ≤ events.count (.work number)) :
    after config dataset observe ⟨true, .evaluating generation left state tasks⟩
        (events ++ [.join]) = ⟨true, .ended (state.finish (.error .cancelled))⟩ := by
  rw [after, List.foldl_append]
  change after config dataset observe (after config dataset observe _ events) [.join] = _
  rcases after_cancelled config dataset observe generation left state tasks events with
    ⟨later, hlater, hleft⟩ | hended
  · have hall : later.all Watcher.isEnded = true := by
      refine List.all_eq_true.mpr fun task htask => ?_
      obtain ⟨number, hnumber⟩ := List.mem_iff_getElem?.mp htask
      obtain ⟨before, hbefore, hless⟩ := hleft number task hnumber
      have henough := hfair number before hbefore
      exact Watcher.isEnded_of_left dataset (by omega)
    rw [hlater]
    simp [after, step, hall]
  · rw [hended]
    exact after_ended _ [.join]

end Session

/-! ## No partial results -/

/-- Whatever happens, in any order, and whenever the flag is set:

the observer has been shown reports about evaluated candidates alone;

tasks that have ended with the flag not set have evaluated every candidate of the population in this
evaluation;

a task that returns has seen the flag; once it is set, nothing is reported of the generation any
more, the search can only end as cancelled, and does so when the tasks have made the steps that they
have left;

a search that ends without being cancelled is the search that nobody stops, and one that is cancelled
is a search that someone stops in one of its generations. -/
theorem Session.no_partial_results [Ranked α] [WordSource σ] {config : SearchConfig α}
    (hworkers : 0 < config.workers) (dataset : Dataset α) (observe : τ → GenerationReport α → τ)
    (observed : τ) (source : σ) (events : List Event) :
    let session := (start config dataset observed source).after config dataset observe events
    Search.IsShown config dataset observe observed session.observed ∧
      (∀ (generation left : Nat) (state : Search.State α σ τ) (tasks : List (Watcher α)),
        session.phase = .evaluating generation left state tasks →
          ((∀ task ∈ tasks, task.isEnded = true) → session.cancelled = false →
            (∀ task ∈ tasks, task.task.IsDone) ∧
              tasks.flatMap Watcher.chunk =
                (state.population.evaluated dataset config.threshold).individuals) ∧
          ((∃ task ∈ tasks, task.returned = true) → session.cancelled = true) ∧
          (session.cancelled = true → ∀ more,
            let final := session.after config dataset observe more
            ((∃ later, final.phase = .evaluating generation left state later) ∨
              final.phase = .ended (state.finish (.error .cancelled))) ∧
            ((∀ number, ∀ task ∈ tasks[number]?,
                task.left dataset ≤ more.count (.work number)) →
              (session.after config dataset observe (more ++ [.join])).phase =
                .ended (state.finish (.error .cancelled))))) ∧
      ∀ found, session.phase = .ended found →
        EndsAs config dataset observe observed source session.cancelled found ∧
          ∀ result, found.outcome = .ok result → result.IsFounded config dataset := by
  intro session
  have hsound : IsSound config dataset observe observed source session :=
    (isSound_start hworkers).after hworkers events
  clear_value session
  obtain ⟨cancelled, phase⟩ := session
  refine ⟨hsound.isShown, ?_, ?_⟩
  · rintro generation left state tasks rfl
    have hevaluates := hsound.2
    refine ⟨?_, ?_, ?_⟩
    · rintro hended rfl
      exact hevaluates.complete hended
    · rintro ⟨task, htask, hreturned⟩
      refine Bool.of_not_eq_false fun hcancelled => ?_
      simp [hevaluates.stayed hcancelled task htask] at hreturned
    · rintro rfl more
      refine ⟨?_, fun hfair => congrArg Session.phase (after_cancelled_join hfair)⟩
      rcases after_cancelled config dataset observe generation left state tasks more with
        ⟨later, hlater, -⟩ | hended
      · exact .inl ⟨later, congrArg Session.phase hlater⟩
      · exact .inr (congrArg Session.phase hended)
  · rintro found rfl
    refine ⟨hsound, fun result hok => ?_⟩
    rcases hsound with rfl | ⟨-, hcancelled, -⟩
    · obtain ⟨final, hfinal, hconclude, -⟩ := Search.exists_reported_of_run hok
      exact (hfinal.conclude hconclude).1
    · rw [hcancelled] at hok
      cases hok

/-- The standard settings, on a dataset of one query, where the flag is set before any task has made
a step: however the session goes on, it can only end as cancelled, and without a report. -/
theorem Session.no_partial_results_cancelled :
    let config : SearchConfig Float := SearchConfig.standard
    let dataset : Dataset Float := Dataset.ofPairs [("[word=\"a\"]", 1.0)]
    let observe : Nat → GenerationReport Float → Nat := fun shown _ => shown + 1
    let session := (start config dataset 0 (ScriptedWords.ofList [5])).after config dataset observe
      [.cancel]
    0 < config.workers ∧
      ∀ (more : List Event) (found : SearchRun Float ScriptedWords Nat),
        (session.after config dataset observe more).phase = .ended found →
          found.outcome = .error .cancelled ∧ found.observed = 0 := by
  intro config dataset observe session
  have hworkers : 0 < config.workers := by decide
  have hdataset : dataset.isEmpty = false := by decide +kernel
  obtain ⟨left, hleft⟩ : ∃ left, config.generations = left + 1 :=
    Nat.exists_eq_succ_of_ne_zero (by decide)
  obtain ⟨tasks, hphase⟩ : ∃ tasks, session.phase =
      .evaluating 0 left (Search.initial config 0 (ScriptedWords.ofList [5])) tasks := by
    have hstart : start config dataset 0 (ScriptedWords.ofList [5]) =
        ⟨false, begin config 0 (left + 1)
          (Search.initial config 0 (ScriptedWords.ofList [5]))⟩ := by
      rw [start, hdataset, hleft]
      rfl
    change ∃ tasks, (after config dataset observe _ [.cancel]).phase = _
    rw [hstart]
    exact ⟨_, rfl⟩
  refine ⟨hworkers, fun more found hfound => ?_⟩
  obtain ⟨-, hevaluating, -⟩ := Session.no_partial_results hworkers dataset observe 0
    (ScriptedWords.ofList [5]) [.cancel]
  obtain ⟨-, -, hcancelled⟩ := hevaluating _ _ _ _ hphase
  obtain ⟨⟨later, hlater⟩ | hended, -⟩ := hcancelled rfl more
  · rw [hlater] at hfound
    cases hfound
  · rw [hended] at hfound
    cases hfound
    exact ⟨rfl, rfl⟩

end CorpusCost
