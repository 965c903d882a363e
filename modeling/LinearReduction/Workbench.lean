import LinearReduction.Program.Build
import LinearReduction.Program.Condensed
import LinearReduction.Recovery.Solution
import LinearReduction.Report.Notice
import LinearReduction.Session.Simplify

/-!
# Workbench

A place to build a program, reduce it and recover its solutions, one command after the other. At any
time there is at most one program being built or one session. A command that fails leaves what it was
given to work on, as far as it got, except that after a breach nothing more is done.
-/

namespace LinearReduction

inductive Workbench (α : Type) where
  | idle
  | building (program : Program α)
  | reducing (session : Session α)

inductive Command (α : Type) where
  /-- Drop what there is and begin with an empty program. -/
  | newProgram (sense : Sense)
  | newRow (bounds : Bounds α)
  | newColumn (bounds : Bounds α) (domain : Domain) (cost : α)
  | newCoefficient (row column : Nat) (value : α)
  | fixCost (value : α)
  | draft (draft : Draft α)
  | showProgram
  | showActive (rows columns : List Nat)
  | showRow (row : Nat)
  | showColumn (column : Nat)
  | showCondensed
  /-- Begin to reduce the program, with settings that have been checked. -/
  | begin (choices : Choices α)
  /-- Begin to reduce the program, whatever the settings are. -/
  | beginWith (settings : Settings α)
  | showSummary
  | simplify
  | reduce (reduction : Reduction) (ordinal : Nat)
  /-- End the session and keep its program, empty slots included. -/
  | keepProgram
  /-- End the session and keep its program without empty slots. -/
  | keepCondensed
  /-- End the session and recover a solution of the program at its start. -/
  | recover (kind : Kind) (status : Sides Status) (primal dual : Sides α)

inductive Answer (α : Type) where
  | done
  | ordinal (ordinal : Nat)
  | program (program : Program α)
  | active (rows columns : List Bool)
  | row (row : Row α)
  | column (column : Column α)
  | condensed (condensed : Condensed α)
  | settings (settings : Settings α)
  | summary (summary : Summary)
  | added (added : Added)
  | recovered (recovered : Recovered α)

inductive Failure (α : Type) where
  | noProgram
  | noSession
  | build (error : BuildError α)
  | settings (error : SettingsError)
  | fault (fault : Fault α)

structure Reply (α : Type) where
  outcome : Except (Failure α) (Answer α)
  notices : List (Notice α) := []
  /-- The program of the session, after a command that reduces. -/
  reduced : Option (Program α) := none

namespace Command

variable {α : Type}

/-- Whether a command reduces a program, or begins to. -/
def reduces : Command α → Bool
  | .begin _ | .beginWith _ | .simplify | .reduce .. => true
  | _ => false

end Command

namespace Reply

variable {α : Type}

def answer (answer : Answer α) : Reply α :=
  { outcome := .ok answer }

def failure (failure : Failure α) : Reply α :=
  { outcome := .error failure }

def ofExcept {β : Type} (answer : β → Answer α) : Except (Fault α) β → Reply α
  | .ok result => .answer (answer result)
  | .error fault => .failure (.fault fault)

/-- Whether the command would have broken a property that everything relies on. -/
def isBreach (reply : Reply α) : Bool :=
  match reply.outcome with
  | .error (.fault (.breached _)) => true
  | _ => false

end Reply

namespace Workbench

variable {α : Type} [Scalar α]

def program? : Workbench α → Option (Program α)
  | .idle => none
  | .building program => some program
  | .reducing session => some session.program

def session? : Workbench α → Option (Session α)
  | .reducing session => some session
  | .idle | .building _ => none

def extend {β : Type} (bench : Workbench α) (work : Build α β) (answer : β → Answer α) :
    Reply α × Workbench α :=
  match bench with
  | .building program =>
      match work program with
      | .ok result program => (.answer (answer result), .building program)
      | .error error program => (.failure (.build error), .building program)
  | .idle | .reducing _ => (.failure .noProgram, bench)

def inspect (bench : Workbench α) (look : Program α → Reply α) : Reply α × Workbench α :=
  match bench.program? with
  | some program => (look program, bench)
  | none => (.failure .noProgram, bench)

def inspectActive {β : Type} (bench : Workbench α) (axis : Axis) (k : Nat)
    (find : Program α → Option β) (answer : β → Answer α) : Reply α × Workbench α :=
  bench.inspect fun program =>
    match find program with
    | some found => .answer (answer found)
    | none => .failure (.fault (.refused (.inactive axis k)))

def withSession (bench : Workbench α) (use : Session α → Reply α × Workbench α) :
    Reply α × Workbench α :=
  match bench.session? with
  | some session => use session
  | none => (.failure .noSession, bench)

/-- Reduce the program of the session, and tell how it went. -/
def advance {β : Type} (bench : Workbench α) (work : Step α β) (answer : β → Answer α)
    (closing : β → Session α → List (Notice α)) : Reply α × Workbench α :=
  bench.withSession fun before =>
    match work before with
    | .ok result after =>
        ({ outcome := .ok (answer result), notices := before.news after ++ closing result after },
          .reducing after)
    | .error (.noOptimum cause) after =>
        ({ outcome := .error (.fault (.noOptimum cause))
           notices := before.news after ++ [.rejected cause] }, .reducing after)
    | .error fault after => (.failure (.fault fault), .reducing after)

def beginWith (bench : Workbench α) (settings : Settings α) : Reply α × Workbench α :=
  match bench with
  | .building program =>
      match Session.begin program settings with
      | .error fault => (.failure (.fault fault), .idle)
      | .ok session => (.answer (.settings settings), .reducing session)
  | .idle | .reducing _ => (.failure .noProgram, bench)

def begin (bench : Workbench α) (choices : Choices α) : Reply α × Workbench α :=
  match bench, choices.settle with
  | .building _, .error error => (.failure (.settings error), bench)
  | .building _, .ok settings => bench.beginWith settings
  | .idle, _ | .reducing _, _ => (.failure .noProgram, bench)

/-- End the session with a solution of the program at its start. -/
def finish (session : Session α) (reduced : Solution α) : Reply α × Workbench α :=
  match session.recover reduced with
  | .error fault => (.failure (.fault fault), .idle)
  | .ok recovered =>
      ({ outcome := .ok (.recovered recovered)
         notices := [.unwinding session.records.length reduced.kind, .recovered recovered.objective] },
        .idle)

def carryOut (bench : Workbench α) : Command α → Reply α × Workbench α
  | .newProgram sense => (.answer .done, .building (.empty sense))
  | .newRow bounds => bench.extend (Build.newRow bounds) .ordinal
  | .newColumn bounds domain cost => bench.extend (Build.newColumn bounds domain cost) .ordinal
  | .newCoefficient i j value => bench.extend (Build.newCoefficient i j value) fun _ => .done
  | .fixCost value => bench.extend (Build.fixCost value) fun _ => .done
  | .draft draft => bench.extend draft.build fun _ => .done
  | .showProgram => bench.inspect fun program => .answer (.program program)
  | .showActive rows columns =>
      bench.inspect fun program =>
        .answer (.active (rows.map program.rows.isActive) (columns.map program.columns.isActive))
  | .showRow i => bench.inspectActive .row i (·.rows.get? i) .row
  | .showColumn j => bench.inspectActive .column j (·.columns.get? j) .column
  | .showCondensed => bench.inspect fun program => .ofExcept .condensed program.condense
  | .begin choices => bench.begin choices
  | .beginWith settings => bench.beginWith settings
  | .showSummary => bench.withSession fun session => (.answer (.summary session.summary), bench)
  | .simplify =>
      bench.advance Step.simplify .summary fun summary after => [.simplified summary after.records.length]
  | .reduce reduction k => bench.advance (Step.reduce reduction k) .added fun _ _ => []
  | .keepProgram => bench.withSession fun session => (.answer .done, .building session.program)
  | .keepCondensed =>
      bench.withSession fun session =>
        match session.program.condense with
        | .ok condensed => (.answer .done, .building condensed.program)
        | .error fault => (.failure (.fault fault), bench)
  | .recover kind status primal dual =>
      bench.withSession fun session =>
        match Solution.ofKind kind status primal dual with
        | .ok reduced => finish session reduced
        | .error fault => (.failure (.fault fault), bench)

/-- Carry out a command, and show the program of the session if the command reduces. -/
def perform (bench : Workbench α) (command : Command α) : Reply α × Workbench α :=
  let (reply, next) := bench.carryOut command
  let shown := if command.reduces && !reply.isBreach then next.session?.map (·.program) else none
  ({ reply with reduced := shown }, next)

/-- Carry out commands in order, up to a breach. -/
def transcript (bench : Workbench α) : List (Command α) → List (Reply α)
  | [] => []
  | command :: rest =>
      let (reply, next) := bench.perform command
      if reply.isBreach then [reply] else reply :: next.transcript rest

/-- What is at hand after commands in order. -/
def after (bench : Workbench α) (commands : List (Command α)) : Workbench α :=
  commands.foldl (fun bench command => (bench.perform command).2) bench

end Workbench

end LinearReduction
