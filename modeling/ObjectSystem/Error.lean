import ObjectSystem.Class.Builder
import ObjectSystem.Event
import ObjectSystem.Instance

/-!
# Errors

Every part of the library has errors of its own; `Error` is their union. An error has two wordings:
its own message, and a description that says which part it came from.
-/

namespace ObjectSystem

/-- Why a source cannot be removed. -/
inductive SourceError where
  /-- The source was never attached or is gone. -/
  | invalidSource (source : SourceId)
  deriving Repr, DecidableEq

/-- The wording of a source error. -/
def SourceError.message : SourceError → String
  | .invalidSource source => s!"Invalid or already removed source {source.number}"

/-- Any error of the library. -/
inductive Error where
  | resolve (e : ResolveError)
  | spec (e : SpecError)
  | registration (e : RegistrationError)
  | ofClass (e : ClassError)
  | construct (e : ConstructError)
  | property (e : PropertyError)
  | method (e : MethodError)
  | signal (e : SignalError)
  | source (e : SourceError)
  | action (e : ActionError)
  | event (e : EventError)
  /-- A configuration document is faulty. -/
  | config
  | unknownFlagPreset (name : String)
  | unknownTrigger (name : String)
  deriving Repr, DecidableEq

namespace Error

/-- The wording of an error, given the texts of instances. -/
def message (shown : InstanceId → String) : Error → String
  | .resolve e => e.message
  | .spec e => e.message
  | .registration e => e.message
  | .ofClass e => e.message
  | .construct e => e.message
  | .property e => e.message
  | .method e => e.message
  | .signal e => e.message
  | .source e => e.message
  | .action e => e.message
  | .event e => e.message shown
  | .config => "Invalid configuration"
  | .unknownFlagPreset name => s!"Unknown flag preset '{name}'"
  | .unknownTrigger name => s!"Unknown debounce trigger '{name}'"

/-- The part of the library that an error came from; the faults of two name lists belong to none. -/
def origin? : Error → Option String
  | .resolve _ => some "Resolve"
  | .spec _ => some "Spec"
  | .registration _ => some "Registration"
  | .ofClass _ => some "Class"
  | .construct _ => some "Construct"
  | .property _ => some "Property"
  | .method _ => some "Method"
  | .signal _ => some "Signal"
  | .source _ => some "Source"
  | .action _ => some "Action"
  | .event _ => some "Event"
  | .config => some "Config"
  | .unknownFlagPreset _ => none
  | .unknownTrigger _ => none

/-- The wording of an error with the part it came from in front. -/
def description (shown : InstanceId → String) (e : Error) : String :=
  match e.origin? with
  | some origin => s!"{origin} error: " ++ e.message shown
  | none => e.message shown

/-- The instances that an error refers to. -/
def targets : Error → List InstanceId
  | .event e => EventOutcome.targets (.error e)
  | _ => []

end Error

end ObjectSystem
