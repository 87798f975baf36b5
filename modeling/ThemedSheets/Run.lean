import ThemedSheets.Fault
import ThemedSheets.Log.Record
import ThemedSheets.Scope.Basic
import ThemedSheets.Sass.Call
/- Runs: what a computation leaves behind in order, and how it ends. Events are only ever added at
   the end, also by a run that fails, so that what happened before a fault can still be told. -/
namespace ThemedSheets

/-- Something that a run leaves behind. -/
inductive Event where
  /-- A log record, made by a worker or outside of all workers. -/
  | logged (record : Log.Record) (byWorker : Bool)
  /-- A requested scope that was left out, told to whoever asked. -/
  | reported (diagnostic : Diagnostic)
  /-- A text given to the compiler, with the options. -/
  | asked (text : String) (options : CompileOptions)
  /-- A call of the Sass engine. -/
  | called (call : Sass.Call)
  /-- A text written to the output. -/
  | printed (text : String)
  /-- A text written to the console beside the log. -/
  | noted (text : String)
  deriving DecidableEq, Repr

/-- The event as one of a worker. -/
def Event.ofWorker : Event → Event
  | .logged record _ => .logged record true
  | e => e

/-- A computation's events and its end. -/
structure Run (α : Type) where
  events : List Event
  outcome : Except Fault α

namespace Run
variable {α β : Type}

/-- The run that does nothing and ends with a value. -/
def done (a : α) : Run α := ⟨[], .ok a⟩

/-- The run that goes on from the value of another; a fault ends both. -/
def andThen (x : Run α) (f : α → Run β) : Run β :=
  match x.outcome with
  | .error e => ⟨x.events, .error e⟩
  | .ok a => ⟨x.events ++ (f a).events, (f a).outcome⟩

instance : Monad Run where
  pure := done
  bind := andThen

def fail (fault : Fault) : Run α := ⟨[], .error fault⟩

def emit (e : Event) : Run Unit := ⟨[e], .ok ()⟩

def ofExcept (x : Except Fault α) : Run α := ⟨[], x⟩

/-- The run without events that ends as an operation on files says. -/
def ofFile (x : Except FileFailure α) : Run α := ⟨[], x.mapError Fault.file⟩

/-- The run that makes a log record outside of all workers. -/
def log (level : Log.Level) (channel message : String) : Run Unit :=
  emit (.logged ⟨level, Log.channelName channel, message⟩ false)

/-- The run with its outcome replaced by another that may depend on it. -/
def recover (x : Run α) (f : Except Fault α → Except Fault β) : Run β :=
  ⟨x.events, f x.outcome⟩

@[simp] theorem events_pure (a : α) : (pure a : Run α).events = [] := rfl

@[simp] theorem outcome_pure (a : α) : (pure a : Run α).outcome = .ok a := rfl

theorem bind_of_error {x : Run α} {e : Fault} (h : x.outcome = .error e) (f : α → Run β) :
    x >>= f = ⟨x.events, .error e⟩ := by
  show andThen x f = _
  simp [andThen, h]

theorem bind_of_ok {x : Run α} {a : α} (h : x.outcome = .ok a) (f : α → Run β) :
    x >>= f = ⟨x.events ++ (f a).events, (f a).outcome⟩ := by
  show andThen x f = _
  simp [andThen, h]

end Run

end ThemedSheets
