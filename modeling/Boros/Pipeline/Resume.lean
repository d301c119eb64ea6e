import Boros.Pipeline.Monitor

/-!
# Subscriptions of the monitor

`bootstrap` and `schedule` of `src/pipeline/monitor.rs` over the stream of
`src/ledger/u5c/mod.rs`. The cursor at which a subscription intersects is read when the
process starts, and the one which the monitor persists moves on. `resumes_of_unobserved`
says that the monitor goes on where it was as long as it subscribes while the two agree,
and as long as the server does not end a stream.

The server is modelled by the responses which it has for its followers, oldest first.
-/

namespace Boros.Pipeline.Resume

open Boros.Data Boros.Semantics Boros.Storage Boros.Ledger

/-- The block which a response is about. -/
def carried : Option Action → Option Point
  | some (.apply (some block)) => block.header.map fun header => (header.slot, header.hash)
  | some (.undo (some block)) => block.header.map fun header => (header.slot, header.hash)
  | _ => none

/-- The response at a position is about the block at a point. -/
def About (log : List (Option Action)) (position : Nat) (point : Point) : Prop :=
  ∃ response, log[position]? = some response ∧ carried response = some point

/-- The stream yields nothing for the response at a position. -/
def Silent (log : List (Option Action)) (position : Nat) : Prop :=
  ∃ response, log[position]? = some response ∧ streamEvent response = .ok none

/-- The position of the first response to a `FollowTipRequest`: behind the last response
about the block at which it intersects, or at the tip. -/
def Intersects (log : List (Option Action)) : Option Point → Nat → Prop
  | none, next => next = log.length
  | some point, next => ∃ last, next = last + 1 ∧ About log last point ∧
      ∀ later, last < later → ¬ About log later point

/-- The stream in `Worker`. -/
inductive Stream where
  /-- gasket is about to call `bootstrap`. -/
  | unsubscribed
  /-- The next response is the one at this position. -/
  | following (next : Nat)
  /-- The server has ended the stream. -/
  | ended
deriving DecidableEq, Repr

/-- The server's responses, the cursor of `U5cDataAdapterImpl`, and the monitor stage.
`taken` is the last event taken from a stream, with its position. -/
structure State where
  log : List (Option Action)
  start : Option Point
  db : Db
  stream : Stream
  worker : Monitor.Worker
  taken : Option (Nat × Event)

/-- The process has started. -/
def State.initial (log : List (Option Action)) (start : Option Point) (db : Db) : State :=
  ⟨log, start, db, .unsubscribed, .schedule, none⟩

/-- What happens next. -/
inductive Label where
  /-- The server has one more response. -/
  | respond (response : Option Action)
  /-- `bootstrap` subscribes. -/
  | subscribe
  /-- `bootstrap` fails. -/
  | refuse
  /-- The stream yields an event. -/
  | receive (event : Event)
  /-- The stream passes over a response. -/
  | skip
  /-- The stream panics on a response. -/
  | malformed
  /-- The stream yields an error, and `schedule` returns `WorkerError::Restart`. -/
  | error
  /-- `schedule` learns that the server has ended the stream, and is idle. -/
  | finish
  /-- `schedule` polls the ended stream again, and is idle. -/
  | poll
  /-- A step of `execute`. -/
  | monitor (label : Monitor.Label)
  /-- Another stage writes to the store. -/
  | store (next : Db)
deriving DecidableEq

/-- One step. -/
inductive Step (profile : Profile) (config : Monitor.Config) : State → Label → State → Prop where
  | respond {state : State} (response : Option Action) :
      Step profile config state (.respond response)
        { state with log := state.log ++ [response] }
  | subscribe {state : State} {next} (worker : state.worker = .schedule)
      (stream : state.stream = .unsubscribed) (intersects : Intersects state.log state.start next) :
      Step profile config state .subscribe { state with stream := .following next }
  | refuse {state : State} (worker : state.worker = .schedule)
      (stream : state.stream = .unsubscribed) :
      Step profile config state .refuse { state with worker := .panicked .explicit }
  | receive {state : State} {next response event} (worker : state.worker = .schedule)
      (stream : state.stream = .following next) (found : state.log[next]? = some response)
      (yields : streamEvent response = .ok (some event)) :
      Step profile config state (.receive event)
        { state with
          stream := .following (next + 1)
          worker := .awaiting event .find
          taken := some (next, event) }
  | skip {state : State} {next response} (worker : state.worker = .schedule)
      (stream : state.stream = .following next) (found : state.log[next]? = some response)
      (yields : streamEvent response = .ok none) :
      Step profile config state .skip { state with stream := .following (next + 1) }
  | malformed {state : State} {next response fault} (worker : state.worker = .schedule)
      (stream : state.stream = .following next) (found : state.log[next]? = some response)
      (yields : streamEvent response = .error fault) :
      Step profile config state .malformed { state with worker := .panicked fault }
  | error {state : State} {next} (worker : state.worker = .schedule)
      (stream : state.stream = .following next) :
      Step profile config state .error { state with stream := .unsubscribed }
  | finish {state : State} {next} (worker : state.worker = .schedule)
      (stream : state.stream = .following next) :
      Step profile config state .finish { state with stream := .ended }
  | poll {state : State} (worker : state.worker = .schedule) (stream : state.stream = .ended) :
      Step profile config state .poll state
  | monitor {state : State} {db worker label}
      (step : Monitor.Step profile config (state.db, state.worker) label (db, worker))
      (inner : ∀ event, label ≠ .receive event) :
      Step profile config state (.monitor label) { state with db := db, worker := worker }
  | store {state : State} (next : Db) (cursor : next.cursor = state.db.cursor) :
      Step profile config state (.store next) { state with db := next }

/-! ## The resume law -/

/-- The cursor which is persisted. -/
def Persisted (db : Db) (cursor : Option Point) : Prop :=
  db.cursor = cursor.map fun point => ⟨asI64 point.1, point.2⟩

/-- Behind the response about a block, the next response for which the stream yields
something is at this position or after it. -/
def Follows (log : List (Option Action)) (next : Nat) (point : Point) : Prop :=
  ∃ last < next, About log last point ∧
    ∀ position, last < position → position < next → Silent log position

/-- The next event follows the persisted cursor, and was not taken before. -/
def Continues (state : State) : Prop :=
  ∀ next, state.stream = .following next →
    (∀ point, Persisted state.db (some point) → Follows state.log next point) ∧
      ∀ last event, state.taken = some (last, event) → last < next

/-- A subscription intersects at the persisted cursor, an event continues from it, and a
stream which has ended is not polled again. -/
def Resumes (transition : Transition State Label) : Prop :=
  match transition.label with
  | .subscribe => Persisted transition.before.db transition.before.start
  | .receive _ => Continues transition.before
  | .poll => False
  | _ => True

/-- The monitor subscribes before it has taken an event, or when the last one is about the
block at which the process started; and no stream is ended by the server. -/
def Unobserved (state : State) : Label → Prop
  | .subscribe => ∀ last event, state.taken = some (last, event) → state.start = some event.point
  | .finish => False
  | _ => True

/-- The point of the last event taken, or else the one at which the process started. -/
def State.cursor (state : State) : Option Point :=
  (state.taken.map fun entry => entry.2.point).or state.start

/-- What holds while the monitor subscribes at the persisted cursor only. -/
structure OnCourse (state : State) : Prop where
  inHand : ∀ event, state.worker.inHand = some event → ∃ last, state.taken = some (last, event)
  persisted : state.worker = .schedule → Persisted state.db state.cursor
  about : ∀ last event, state.taken = some (last, event) → About state.log last event.point
  unended : state.stream ≠ .ended
  follows : ∀ next, state.stream = .following next →
    (∀ point, state.cursor = some point → Follows state.log next point) ∧
      ∀ last event, state.taken = some (last, event) → last < next

/-! ## One step -/

variable {profile : Profile} {config : Monitor.Config} {state next final : State} {label : Label}
  {log : List (Option Action)} {position : Nat} {point : Point}

theorem getElem?_append_of_found {response : Option Action} (found : log[position]? = some response)
    (later : Option Action) : (log ++ [later])[position]? = some response := by
  rw [List.getElem?_append_left (List.getElem?_eq_some_iff.mp found).1, found]

theorem About.append (about : About log position point) (later : Option Action) :
    About (log ++ [later]) position point := by
  obtain ⟨response, found, carries⟩ := about
  exact ⟨response, getElem?_append_of_found found later, carries⟩

/-- More responses do not change what follows a block. -/
theorem Follows.append (follows : Follows log position point) (later : Option Action) :
    Follows (log ++ [later]) position point := by
  obtain ⟨last, before, about, silent⟩ := follows
  refine ⟨last, before, about.append later, fun other after below => ?_⟩
  obtain ⟨response, found, yields⟩ := silent other after below
  exact ⟨response, getElem?_append_of_found found later, yields⟩

/-- Passing over a response for which the stream yields nothing changes nothing. -/
theorem Follows.skip (follows : Follows log position point) (silent : Silent log position) :
    Follows log (position + 1) point := by
  obtain ⟨last, before, about, between⟩ := follows
  refine ⟨last, Nat.lt_succ_of_lt before, about, fun other after below => ?_⟩
  rcases Nat.lt_succ_iff_lt_or_eq.mp below with earlier | rfl
  · exact between other after earlier
  · exact silent

/-- The next position follows the block at a position. -/
theorem About.follows (about : About log position point) : Follows log (position + 1) point := by
  refine ⟨position, Nat.lt_succ_self _, about, fun other after below => ?_⟩
  omega

/-- An event is about the block of the response which it is made of. -/
theorem carried_of_yields {response : Option Action} {event : Event}
    (yields : streamEvent response = .ok (some event)) : carried response = some event.point := by
  match response with
  | none => cases yields
  | some (.reset point) => cases yields
  | some (.apply chain) =>
      simp only [streamEvent, except_bind_ok_iff, unwrap_ok_iff] at yields
      obtain ⟨block, rfl, made⟩ := yields
      split at made
      · simp only [except_bind_ok_iff, unwrap_ok_iff] at made
        obtain ⟨header, found, produced⟩ := made
        cases produced
        simp [carried, found, Event.point]
      · cases made
  | some (.undo chain) =>
      simp only [streamEvent, except_bind_ok_iff, unwrap_ok_iff] at yields
      obtain ⟨block, rfl, header, found, produced⟩ := yields
      cases produced
      simp [carried, found, Event.point]

theorem persisted_unique {db : Db} {first second : Option Point} (one : Persisted db first)
    (other : Persisted db second) : first = second := by
  have injective : Function.Injective fun point : Point =>
      (⟨asI64 point.1, point.2⟩ : CursorRow) := by
    intro left right same
    obtain ⟨slots, hashes⟩ := CursorRow.mk.inj same
    exact Prod.ext (asI64_injective slots) hashes
  exact Option.map_injective injective (one.symm.trans other)

/-- The cursor which is read when the process starts is the persisted one. -/
theorem persisted_of_currentCursor {db : Db} {start : Option Point}
    (read : db.currentCursor = .ok (start.map fun point => ⟨point.1, point.2⟩)) :
    Persisted db start := by
  unfold Db.currentCursor at read
  unfold Persisted
  split at read
  · rename_i empty
    cases start with
    | none => exact empty
    | some point => cases read
  · rename_i row stored
    split at read
    · rename_i slot decoded
      cases start with
      | none => cases read
      | some point =>
          obtain ⟨hash, index⟩ := point
          cases read
          rw [stored, Option.map_some, asI64_of_tryFromI64 decoded]
    · cases read

/-- A step of `execute` ends it with the cursor of the event in hand. -/
theorem OnCourse.monitor {db : Db} {worker : Monitor.Worker} {label : Monitor.Label}
    (course : OnCourse state)
    (step : Monitor.Step profile config (state.db, state.worker) label (db, worker))
    (inner : ∀ event, label ≠ .receive event) :
    OnCourse { state with db := db, worker := worker } := by
  refine ⟨?_, ?_, course.about, course.unended, course.follows⟩
  · intro event holds
    rcases step.inHand holds with before | received
    · exact course.inHand event before
    · exact absurd received (inner event)
  · intro scheduling
    obtain rfl : worker = .schedule := scheduling
    obtain ⟨event, inHand, rfl⟩ := step.of_schedule
    obtain ⟨last, taken⟩ := course.inHand event inHand
    simp [Persisted, State.cursor, taken, Db.setCursor]

/-- A subscription goes on behind the last event taken, or where the process started. -/
theorem OnCourse.intersects {next : Nat} (course : OnCourse state)
    (unobserved : Unobserved state .subscribe)
    (intersects : Intersects state.log state.start next) :
    (∀ point, state.cursor = some point → Follows state.log next point) ∧
      ∀ last event, state.taken = some (last, event) → last < next := by
  have started : ∀ point, state.cursor = some point → state.start = some point := by
    intro point cursor
    unfold State.cursor at cursor
    cases taken : state.taken with
    | none => simpa [taken] using cursor
    | some entry =>
        obtain ⟨last, event⟩ := entry
        rw [unobserved last event taken]
        simpa [taken] using cursor
  refine ⟨fun point cursor => ?_, fun last event taken => ?_⟩
  · rw [started point cursor] at intersects
    obtain ⟨last, rfl, about, _⟩ := intersects
    exact about.follows
  · rw [unobserved last event taken] at intersects
    obtain ⟨latest, rfl, _, latest'⟩ := intersects
    by_contra behind
    exact latest' last (by omega) (course.about last event taken)

/-- An event which is taken is about the response at its position, and the subscription goes on
behind it. -/
theorem onCourse_receive {event : Event} (about : About state.log position event.point) :
    OnCourse { state with
      stream := .following (position + 1)
      worker := .awaiting event .find
      taken := some (position, event) } := by
  refine ⟨?_, ?_, ?_, by simp, ?_⟩
  · intro other inHand
    cases inHand
    exact ⟨position, rfl⟩
  · intro scheduling
    cases scheduling
  · intro last other taken
    cases taken
    exact about
  · intro next following
    obtain rfl := Stream.following.inj following
    refine ⟨?_, ?_⟩
    · intro point cursor
      obtain rfl := Option.some.inj cursor
      exact about.follows
    · intro last other taken
      cases taken
      exact Nat.lt_succ_self _

/-- A step keeps the monitor on course. -/
theorem Step.onCourse (step : Step profile config state label next)
    (unobserved : Unobserved state label) (course : OnCourse state) : OnCourse next := by
  cases step with
  | monitor step inner => exact course.monitor step inner
  | respond response =>
      refine ⟨course.inHand, course.persisted, ?_, course.unended, ?_⟩
      · intro last event taken
        exact (course.about last event taken).append response
      · intro next following
        obtain ⟨follows, ahead⟩ := course.follows next following
        exact ⟨fun point cursor => (follows point cursor).append response, ahead⟩
  | subscribe worker stream intersects =>
      refine ⟨course.inHand, course.persisted, course.about, by simp, ?_⟩
      intro next following
      obtain rfl := Stream.following.inj following
      exact course.intersects unobserved intersects
  | refuse worker stream =>
      refine ⟨?_, ?_, course.about, course.unended, course.follows⟩
      · intro event inHand
        cases inHand
      · intro scheduling
        cases scheduling
  | receive worker stream found yields =>
      exact onCourse_receive ⟨_, found, carried_of_yields yields⟩
  | @skip position response worker stream found yields =>
      refine ⟨course.inHand, course.persisted, course.about, by simp, ?_⟩
      intro next following
      obtain rfl := Stream.following.inj following
      obtain ⟨follows, ahead⟩ := course.follows position stream
      refine ⟨fun point cursor => (follows point cursor).skip ⟨response, found, yields⟩, ?_⟩
      intro last event taken
      exact Nat.lt_succ_of_lt (ahead last event taken)
  | malformed worker stream found yields =>
      refine ⟨?_, ?_, course.about, course.unended, course.follows⟩
      · intro event inHand
        cases inHand
      · intro scheduling
        cases scheduling
  | error worker stream =>
      refine ⟨course.inHand, course.persisted, course.about, by simp, ?_⟩
      intro next following
      cases following
  | finish worker stream => exact absurd unobserved id
  | poll worker stream => exact course
  | store next cursor =>
      refine ⟨course.inHand, ?_, course.about, course.unended, course.follows⟩
      intro scheduling
      exact cursor.trans (course.persisted scheduling)

/-- On course the monitor goes on where it was. -/
theorem OnCourse.resumes (course : OnCourse state) (step : Step profile config state label next)
    (unobserved : Unobserved state label) : Resumes ⟨state, label, next⟩ := by
  cases step with
  | subscribe worker stream intersects =>
      have persisted := course.persisted worker
      unfold Resumes
      cases taken : state.taken with
      | none => simpa [State.cursor, taken] using persisted
      | some entry =>
          obtain ⟨last, event⟩ := entry
          rw [unobserved last event taken]
          simpa [State.cursor, taken] using persisted
  | receive worker stream found yields =>
      intro next following
      obtain ⟨follows, ahead⟩ := course.follows next following
      refine ⟨fun point persisted => follows point ?_, ahead⟩
      exact persisted_unique (course.persisted worker) persisted
  | poll worker stream => exact absurd stream course.unended
  | _ => trivial

/-- Along every run in which the monitor subscribes unobserved and no stream is ended by
the server, it goes on where it was. -/
theorem resumes_of_unobserved {start : Option Point} {db : Db}
    {trace : List (Transition State Label)}
    (read : db.currentCursor = .ok (start.map fun point => ⟨point.1, point.2⟩))
    (run : Run (Step profile config) (.initial log start db) trace final)
    (unobserved : Guarded Unobserved trace) : ∀ transition ∈ trace, Resumes transition := by
  have preserved : Preserved (Step profile config) Unobserved OnCourse := by
    intro state label next course unobserved step
    exact step.onCourse unobserved course
  have initial : OnCourse (.initial log start db) := by
    refine ⟨?_, ?_, ?_, by simp [State.initial], ?_⟩
    · intro event inHand
      cases inHand
    · intro _
      exact persisted_of_currentCursor read
    · intro last event taken
      cases taken
    · intro next following
      cases following
  intro transition member
  have course := (run.invariant_of_mem preserved initial unobserved member).1
  exact course.resumes (run.step_of_mem member) (unobserved transition member)

/-! ## One block

A process which starts without a cursor follows the chain from its tip. -/

/-- The block, which has no transactions. -/
def samplePoint : Point := (10, [1])

def sampleResponse : Option Action := some (.apply (some ⟨some ⟨10, [1]⟩, some []⟩))

/-- The store, the log and the stream once the block has been executed. -/
def sampleExecuted : State where
  log := [sampleResponse]
  start := none
  db := Db.empty.setCursor ⟨10, [1]⟩
  stream := .following 1
  worker := .schedule
  taken := some (0, .rollForward samplePoint [])

/-- The monitor subscribes, and the block is applied and executed. -/
theorem sample_execute :
    Reaches (Step .debug ⟨1000⟩) Unobserved (.initial [] none Db.empty) sampleExecuted := by
  have subscribe : Step .debug ⟨1000⟩ (.initial [] none Db.empty) .subscribe
      ⟨[], none, Db.empty, .following 0, .schedule, none⟩ := .subscribe rfl rfl rfl
  have respond : Step .debug ⟨1000⟩ ⟨[], none, Db.empty, .following 0, .schedule, none⟩
      (.respond sampleResponse)
      ⟨[sampleResponse], none, Db.empty, .following 0, .schedule, none⟩ := .respond _
  have receive : Step .debug ⟨1000⟩
      ⟨[sampleResponse], none, Db.empty, .following 0, .schedule, none⟩
      (.receive (.rollForward samplePoint []))
      ⟨[sampleResponse], none, Db.empty, .following 1,
        .awaiting (.rollForward samplePoint []) .find, some (0, .rollForward samplePoint [])⟩ :=
    .receive rfl rfl rfl rfl
  have find : Step .debug ⟨1000⟩
      ⟨[sampleResponse], none, Db.empty, .following 1,
        .awaiting (.rollForward samplePoint []) .find, some (0, .rollForward samplePoint [])⟩
      (.monitor .resume)
      ⟨[sampleResponse], none, Db.empty, .following 1,
        .awaiting (.rollForward samplePoint []) .setCursor,
        some (0, .rollForward samplePoint [])⟩ :=
    .monitor (.resume rfl) (by simp)
  have setCursor : Step .debug ⟨1000⟩
      ⟨[sampleResponse], none, Db.empty, .following 1,
        .awaiting (.rollForward samplePoint []) .setCursor,
        some (0, .rollForward samplePoint [])⟩
      (.monitor .resume) sampleExecuted := .monitor (.resume rfl) (by simp)
  have untaken : Unobserved (.initial [] none Db.empty) .subscribe := by
    intro last event taken
    cases taken
  exact .cons subscribe untaken <| .cons respond trivial <| .cons receive trivial <|
    .cons find trivial <| .cons setCursor trivial (.refl _ _)

/-- Until the stream fails the monitor goes on. -/
theorem resumes_of_unobserved_block : ∃ trace,
    Run (Step .debug ⟨1000⟩) (.initial [] none Db.empty) trace sampleExecuted ∧
      ∀ transition ∈ trace, Resumes transition := by
  obtain ⟨trace, run, unobserved⟩ := sample_execute
  exact ⟨trace, run, resumes_of_unobserved rfl run unobserved⟩

/-- The stream fails after that, and the monitor subscribes from the tip again. -/
theorem not_resumes_of_error : ∃ trace final,
    Run (Step .debug ⟨1000⟩) (.initial [] none Db.empty) trace final ∧
      ¬ ∀ transition ∈ trace, Resumes transition := by
  have reached : Reaches (Step .debug ⟨1000⟩) (fun _ _ => True) (.initial [] none Db.empty)
      { sampleExecuted with stream := .unsubscribed } :=
    (sample_execute.mono fun _ _ _ => trivial).trans
      (.cons (.error rfl rfl) trivial (.refl _ _))
  obtain ⟨trace, run, _⟩ := reached
  have subscribe : Step .debug ⟨1000⟩ { sampleExecuted with stream := .unsubscribed } .subscribe
      sampleExecuted := .subscribe rfl rfl rfl
  refine ⟨_, _, run.snoc subscribe, fun resumes => ?_⟩
  have persisted := resumes _ (List.mem_append_right _ List.mem_cons_self)
  cases persisted

end Boros.Pipeline.Resume
