import ProblemBoard.FileSystem.Image
import ProblemBoard.Producer.LiveStore
import ProblemBoard.Project.Resolution
import ProblemBoard.Refresh.Step

/-!
# Timelines

A timeline plays a board on a clock of its own, against producers that follow a script.
Nothing happens but by a call of the host or because the clock is moved.  When it is moved,
all work that is ready is done first: scans run up to their next wait, and timers that are
due fire.  Then the resolutions of the project that are under way come back, reading the
files as they are then.  When nothing is left to do the clock moves on to the next wait
that ends.

Everything that happens is logged with its time.  A host may react to an effect: the first
reaction to effects of its kind is used up, and its call is made while the effect is being
delivered, so the effects of that call wait behind those that are queued already.
-/

namespace ProblemBoard.Refresh

/-- What a producer does when it is asked. -/
structure Script where
  /-- How long it takes. -/
  delay : Nat
  /-- The message of a panic before it does anything. -/
  earlyPanic : Option String
  /-- What comes of it in the end. -/
  outcome : Outcome
  /-- The message of a panic when it is asked for its name. -/
  namePanic : Option String

/-- What the board is played against. -/
structure Stage where
  files : Image
  typeCheck : Script
  lint : Script
  /-- What the editor has published. -/
  live : LiveStore

namespace Stage

def script (s : Stage) : ProducerKind → Script
  | .typeCheck => s.typeCheck
  | .lint => s.lint
  | .live => ⟨0, none, .found s.live.snapshot, none⟩

/-- What a producer is called. -/
def label : ProducerKind → String
  | .typeCheck => typeCheckName
  | .lint => lintName
  | .live => liveName

/-- The name of a producer, an error when asking for it panics. -/
def name (s : Stage) (k : ProducerKind) : Except String String :=
  match (s.script k).namePanic with
  | some message => .error message
  | none => .ok (label k)

def fileSystem (s : Stage) : FileSystem := s.files.seenFrom []

/-- What comes of asking a producer that takes no time. -/
def answer (s : Stage) (k : ProducerKind) : Outcome :=
  match (s.script k).earlyPanic with
  | some message => .panicked (some message)
  | none => (s.script k).outcome

def inquire (s : Stage) (p : Project) (f : Filters) : Collect.Inquiry :=
  Collect.collect s.fileSystem Exclude.noLimit s.name (fun k _ => s.answer k) p f

/-- The producers asked for a project. -/
def calls (s : Stage) (p : Project) (f : Filters) : List (ProducerKind × Request) :=
  (s.inquire p f).asked.filter fun step => step.1 != .live

def collect (s : Stage) (p : Project) (f : Filters) : Except Collect.Abort Collection :=
  (s.inquire p f).result

end Stage

inductive EffectKind where
  | badge
  | dataChanged
  | showError
  | notify
  | reveal
  deriving DecidableEq, Repr

def Effect.kind : Effect → EffectKind
  | .badge _ => .badge
  | .dataChanged => .dataChanged
  | .showError _ => .showError
  | .notify _ => .notify
  | .reveal _ => .reveal

/-- A call that a host makes when it is told of an effect. -/
structure Reaction where
  trigger : EffectKind
  /-- What the call goes by in the log. -/
  name : String
  call : Call

/-- What is logged. -/
inductive Event where
  /-- A producer is asked. -/
  | asked (producer : String) (r : Request)
  | told (e : Effect)
  | reacted (name : String) (reply : Reply)

/-- Where a scan stands. -/
inductive Progress where
  | ready
  /-- It waits for a producer: until when, the producers that come after it, and what was
  collected before. -/
  | waiting (due : Nat) (producer : ProducerKind) (rest : List (ProducerKind × Request))
      (collected : Collection)

/-- A scan on its way. -/
structure Flight where
  scan : Scan
  /-- Where it stands. -/
  progress : Progress

/-- When a scan goes on, if it waits. -/
def Flight.due : Flight → Option Nat
  | ⟨_, .ready⟩ => none
  | ⟨_, .waiting due _ _ _⟩ => some due

/-- An armed timer and when it fires. -/
structure Alarm where
  generation : Nat
  due : Nat

/-- A board on a clock. -/
structure Timeline where
  board : Board
  stage : Stage
  now : Nat
  flights : List Flight
  alarm : Option Alarm
  /-- The reactions that are not used up. -/
  reactions : List Reaction
  /-- What happened, newest first. -/
  log : List (Nat × Event)

namespace Timeline

/-- A board before anything happened. -/
def start (board : Board) (stage : Stage) (reactions : List Reaction) : Timeline :=
  ⟨board, stage, 0, [], none, reactions, []⟩

def record (t : Timeline) (e : Event) : Timeline := { t with log := (t.now, e) :: t.log }

/-! ## Delivery -/

/-- Tells the host of an effect.  Its first reaction to effects of that kind is used up. -/
def tell (t : Timeline) (e : Effect) : Timeline :=
  match t.reactions.find? (·.trigger = e.kind) with
  | none => t.record (.told e)
  | some r =>
      let (board, reply) := r.call.run t.board
      { t.record (.told e) with
        board
        reactions := t.reactions.eraseP (·.trigger = e.kind) }.record (.reacted r.name reply)

theorem tell_of_none {t : Timeline} {e : Effect}
    (h : t.reactions.find? (·.trigger = e.kind) = none) : t.tell e = t.record (.told e) := by
  simp [tell, h]

theorem tell_of_some {t : Timeline} {e : Effect} {r : Reaction}
    (h : t.reactions.find? (·.trigger = e.kind) = some r) :
    t.tell e =
      { t.record (.told e) with
        board := (r.call.run t.board).1
        reactions := t.reactions.eraseP (·.trigger = e.kind) }.record
          (.reacted r.name (r.call.run t.board).2) := by
  simp [tell, h]

theorem length_eraseP_lt {e : Effect} {rs : List Reaction} {r : Reaction}
    (h : rs.find? (·.trigger = e.kind) = some r) :
    (rs.eraseP (·.trigger = e.kind)).length < rs.length := by
  have hr := List.mem_of_find?_eq_some h
  have hpos := List.length_pos_of_mem hr
  rw [List.length_eraseP_of_mem hr (List.find?_some h)]
  omega

/-- Delivers a batch of effects and then what was queued meanwhile, until nothing is left. -/
def pump (t : Timeline) (batch : List Effect) : Timeline :=
  match batch with
  | [] =>
      match _hq : t.board.takeBatch with
      | (board, []) => { t with board }
      | (board, e :: es) => pump { t with board } (e :: es)
  | e :: rest => pump (t.tell e) rest
termination_by (t.reactions.length, batch.length + 2 * t.board.effects.length)
decreasing_by
  · have hne : t.board.effects ≠ [] := by
      intro hn
      simp [Board.takeBatch_of_nil hn] at _hq
    obtain ⟨rfl, hb⟩ := Prod.mk.inj ((Board.takeBatch_of_ne_nil hne).symm.trans _hq)
    simp [Prod.lex_def, hb]
  · cases hr : t.reactions.find? (·.trigger = e.kind) with
    | none => simp [tell_of_none hr, Prod.lex_def, record]
    | some r => simp [tell_of_some hr, Prod.lex_def, record, length_eraseP_lt hr]

/-- Delivers the queued effects, unless someone is delivering already. -/
def flush (t : Timeline) : Timeline :=
  match t.board.beginDelivery with
  | (board, true) => pump { t with board } []
  | (_, false) => t

/-- A step of the board with the delivery of its effects. -/
def act (t : Timeline) (s : Step) : Timeline := { t with board := t.board.after s }.flush

/-- A call of the host, with a delivery after each of its steps. -/
def call (t : Timeline) (c : Call) : Timeline × Reply :=
  let t' := t.act (.called c)
  match _h : (c.step t.board).rest with
  | .inr reply => (t', reply)
  | .inl rest => call t' rest
termination_by c.steps
decreasing_by exact Call.steps_lt _h

/-! ## Work -/

/-- How far a scan has come.  A new one is ready to begin. -/
def progressOf (flights : List Flight) (s : Scan) : Progress :=
  ((flights.find? (·.scan.id = s.id)).map Flight.progress).getD .ready

/-- The alarm of a timer.  A new timer fires after its delay. -/
def alarmOf (now : Nat) (alarm : Option Alarm) (timer : Timer) : Alarm :=
  (alarm.filter (·.generation = timer.generation)).getD
    ⟨timer.generation, now + timer.delay⟩

/-- Takes note of what the board started or cancelled. -/
def sync (t : Timeline) : Timeline :=
  { t with
    flights := t.board.scans.map fun s => ⟨s, progressOf t.flights s⟩
    alarm := t.board.timer.map (alarmOf t.now t.alarm) }

/-- What is published when a scan panics outside its producers. -/
def taskPanicked : ScanError := .failedUnexpectedly "scan task panicked"

def finish (t : Timeline) (s : Scan) (result : Except ScanError Collection) : Timeline :=
  t.act (.scanFinished s.id (result.map s.result))

/-- Notes how far a scan has come. -/
def note (t : Timeline) (s : Scan) (p : Progress) : Timeline :=
  { t with flights := ⟨s, p⟩ :: t.flights.filter (·.scan.id != s.id) }

/-- A scan asks the producers that are left, until one takes time. -/
def proceed (t : Timeline) (s : Scan) (collected : Collection) :
    List (ProducerKind × Request) → Timeline
  | [] => t.finish s (.ok collected)
  | (k, r) :: rest =>
      let t := if k = .live then t else t.record (.asked (Stage.label k) r)
      let script := t.stage.script k
      if script.earlyPanic.isSome || script.delay = 0 then
        match collected.receive (.ofProject s.project s.filters) (t.stage.name k)
            (t.stage.answer k) with
        | .ok collected => t.proceed s collected rest
        | .error _ => t.finish s (.error taskPanicked)
      else t.note s (.waiting (t.now + script.delay) k rest collected)

def resume (t : Timeline) (f : Flight) : Timeline :=
  match f.progress with
  | .ready =>
      match Collect.obstacle t.stage.fileSystem Exclude.noLimit f.scan.project.root
          (f.scan.filters.exclude ++ f.scan.project.excludes) with
      | none => t.proceed f.scan .empty (Collect.plan f.scan.project f.scan.filters)
      | some e => t.finish f.scan (.error e)
  | .waiting _ k rest collected =>
      match collected.receive (.ofProject f.scan.project f.scan.filters) (t.stage.name k)
          (t.stage.script k).outcome with
      | .ok collected => t.proceed f.scan collected rest
      | .error _ => t.finish f.scan (.error taskPanicked)

/-- The first scan that can go on now. -/
def readyFlight (t : Timeline) : Option Flight := t.flights.find? (·.due.all (· ≤ t.now))

/-- The timer that fires now. -/
def dueAlarm (t : Timeline) : Option Alarm := t.alarm.filter (·.due ≤ t.now)

/-- Brings back a resolution of the project. -/
def land (t : Timeline) (r : Resolution) : Timeline :=
  t.act (.resolutionLanded r (Project.resolve t.stage.fileSystem r.root r.overrides))

/-- The times at which waits end. -/
def dues (t : Timeline) : List Nat :=
  t.flights.filterMap Flight.due ++ (t.alarm.map Alarm.due).toList

/-- The next piece of work that can be done up to a time, if one is left. -/
def work? (target : Nat) (t : Timeline) : Option Timeline :=
  match t.readyFlight, t.dueAlarm, t.board.resolutions with
  | some f, _, _ => some (t.resume f)
  | none, some a, _ => some (t.act (.timerFired a.generation))
  | none, none, r :: rs => some ((r :: rs).foldl land t)
  | none, none, [] => (t.dues.min?.filter (· ≤ target)).map fun due => { t with now := due }

/-- Works up to a time. -/
def workUntil (target : Nat) : Nat → Timeline → Timeline
  | 0, t => t
  | fuel + 1, t =>
      match t.sync.work? target with
      | some t => workUntil target fuel t
      | none => t.sync

/-- A bound on the pieces of work ahead: each scan, timer, resolution and reaction causes a
few more at most. -/
def workBound (t : Timeline) : Nat :=
  64 * (t.reactions.length + t.board.resolutions.length + t.board.scans.length + 2)

/-- Moves the clock. -/
def advance (t : Timeline) (ms : Nat) : Timeline :=
  { workUntil (t.now + ms) t.workBound t with now := t.now + ms }.sync

/-- Takes what was logged so far out of the log, oldest first. -/
def takeLog (t : Timeline) : Timeline × List (Nat × Event) := ({ t with log := [] }, t.log.reverse)

end Timeline

end ProblemBoard.Refresh
