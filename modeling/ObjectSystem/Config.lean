import ObjectSystem.Config.Document

/-!
# Configuration

A main context is created with a configuration, which every instance on it reads: where the time
comes from, how object values are compared and when stored properties report a write. All three
settings are optional in a document, and a document with any other setting is refused.
-/

namespace ObjectSystem

/-- Where a main context takes its time from. -/
inductive ClockMode where
  /-- The time of the machine. -/
  | system
  /-- A clock that only moves when it is told to. -/
  | manual
  deriving Repr, DecidableEq

/-- How two object values are compared when a write is checked for a change. -/
inductive ObjectEquality where
  /-- The same instance. -/
  | identity
  /-- The same class and identical stored values. -/
  | structural
  deriving Repr, DecidableEq

/-- When a stored property reports a write. -/
inductive NotifyPolicy where
  | onChange
  | always
  deriving Repr, DecidableEq

/-- The settings of a main context. -/
structure Config where
  clock : ClockMode := .system
  objectEquality : ObjectEquality := .identity
  notifyPolicy : NotifyPolicy := .onChange
  deriving Repr, DecidableEq

namespace Config

/-- The words for clock modes in a document. -/
def clockWords : List (String × ClockMode) :=
  [("system", .system), ("manual", .manual)]

/-- The words for comparisons in a document. -/
def equalityWords : List (String × ObjectEquality) :=
  [("identity", .identity), ("structural", .structural)]

/-- The words for notification policies in a document. -/
def policyWords : List (String × NotifyPolicy) :=
  [("on-change", .onChange), ("always", .always)]

/-- Whether a value of a document is an empty table, or the empty array that may stand for one. -/
def Node.isVoid : Node → Bool
  | .table _ [] => true
  | .emptyArray => true
  | _ => false

/-- Reads a choice: a word, or a table that maps a word to nothing. -/
def choose? {α : Type} (words : List (String × α)) : Node → Option α
  | .text word => words.lookup word
  | .table _ [(word, node)] => if node.isVoid then words.lookup word else none
  | _ => none

/-- Takes one setting of a document into a configuration. -/
def applySetting (config : Config) (key : String) (node : Node) : Option Config :=
  match key with
  | "clock" => (choose? clockWords node).map fun clock => { config with clock }
  | "object-equality" =>
    (choose? equalityWords node).map fun objectEquality => { config with objectEquality }
  | "notify-policy" =>
    (choose? policyWords node).map fun notifyPolicy => { config with notifyPolicy }
  | _ => none

/-- Reads a configuration from a document; nothing if the document is faulty. -/
def ofText? (text : String) : Option Config := do
  let entries ← readDocument? text
  entries.foldlM (fun config (key, node) => config.applySetting key node) {}

end Config

end ObjectSystem
