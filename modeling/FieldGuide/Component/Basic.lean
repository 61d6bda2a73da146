import FieldGuide.Field.Basic
import FieldGuide.Text.Lines

/-!
# Components

This module holds the description of a component: its role, its status, the texts
shown about it, showcases, and the field that describes its
configuration. It also finds what makes a description invalid.
-/

namespace FieldGuide

/-- The part a component plays in a pipeline. -/
inductive Role
  | buffer
  | cache
  | input
  | metrics
  | output
  | processor
  | rateLimit
  | scanner
  | tracer
  deriving DecidableEq, Repr

namespace Role

/-- The name of a role in documents and on pages. -/
def name : Role → String
  | .buffer => "buffer"
  | .cache => "cache"
  | .input => "input"
  | .metrics => "metrics"
  | .output => "output"
  | .processor => "processor"
  | .rateLimit => "rate_limit"
  | .scanner => "scanner"
  | .tracer => "tracer"

/-- All roles, in declared order. -/
def all : List Role :=
  [.buffer, .cache, .input, .metrics, .output, .processor, .rateLimit, .scanner, .tracer]

end Role

/-- How far readers can rely on a component. -/
inductive Status
  | stable
  | beta
  | experimental
  | deprecated
  deriving DecidableEq, Repr

namespace Status

/-- The name of a status in documents and on pages. -/
def name : Status → String
  | .stable => "stable"
  | .beta => "beta"
  | .experimental => "experimental"
  | .deprecated => "deprecated"

/-- All statuses, in declared order. -/
def all : List Status := [.stable, .beta, .experimental, .deprecated]

/-- The status of a component that names none. -/
def assumed : Status := .stable

end Status

/-- An example configuration with words about it. -/
structure Showcase where
  title : String
  summary : String := ""
  config : String := ""
  deriving DecidableEq, Repr

/-- The description of a component. -/
structure Component where
  name : String
  role : Role
  status : Status := .assumed
  summary : String := ""
  description : String := ""
  categories : List String := []
  footnotes : String := ""
  showcases : List Showcase := []
  version : String := ""
  config : Field
  deriving DecidableEq, Repr

/-- A description that breaks a rule, with the component it is about. -/
structure Invalid where
  subject : String
  reason : String
  deriving DecidableEq, Repr

namespace Invalid

/-- A broken rule of the component with the given role and name. -/
def ofComponent (role name reason : String) : Invalid where
  subject := role ++ " component '" ++ name ++ "'"
  reason

/-- The wording of a broken rule. -/
def message (invalid : Invalid) : String :=
  invalid.subject ++ " is invalid: " ++ invalid.reason

end Invalid

namespace Component

/-- What can be wrong with the description of a component. -/
inductive Flaw
  | emptyLineInSummary
  | repeatedField (path : String)
  deriving DecidableEq, Repr

/-- The wording of a flaw. -/
def Flaw.reason : Flaw → String
  | .emptyLineInSummary => "summary contains empty lines"
  | .repeatedField path => "field '" ++ path ++ "' is declared more than once"

/-- Whether a summary holds two line ends of one kind in a row. -/
def hasEmptyLine (summary : String) : Bool :=
  Text.occursIn ['\n', '\n'] summary.toList ||
    Text.occursIn ['\r', '\n', '\r', '\n'] summary.toList

/-- The first flaw of a description. The summary is looked at before the
fields. -/
def flaw? (component : Component) : Option Flaw :=
  if hasEmptyLine component.summary then some .emptyLineInSummary
  else component.config.duplicate?.map .repeatedField

/-- Accepts a description without flaws. -/
def check (component : Component) : Except Invalid Unit :=
  match component.flaw? with
  | some flaw => .error (.ofComponent component.role.name component.name flaw.reason)
  | none => .ok ()

/-- A refinement of a component's description. -/
inductive Edit
  | setStatus (status : Status)
  | summarize (text : String)
  | describe (text : String)
  | addCategories (categories : List String)
  | setFootnotes (text : String)
  | addShowcase (shown : Showcase)
  | setVersion (version : String)
  deriving Repr

/-- The description after one edit. -/
def edit (component : Component) : Edit → Component
  | .setStatus status => { component with status }
  | .summarize text => { component with summary := text }
  | .describe text => { component with description := text }
  | .addCategories categories =>
      { component with categories := component.categories ++ categories }
  | .setFootnotes text => { component with footnotes := text }
  | .addShowcase shown => { component with showcases := component.showcases ++ [shown] }
  | .setVersion version => { component with version }

end Component

end FieldGuide
