import ExtensionCatalog.Settings.Basic
import ExtensionCatalog.Signature.Check
import ExtensionCatalog.Signature.Document
import ExtensionCatalog.Text.Lowercase

/-!
# The registry (spec §C.5)

The overloads of all functions, by name and regardless of letter case. A
function is shown under the spelling of its first registration, and its
overloads stay in the order in which they were registered, so that a call which
has found its overload finds it again whatever is registered later.

Registration makes sure that the name has an entry before it looks for the
overload there, yet an entry never stays without overloads: what is refused as
a duplicate is refused because of an overload that the entry has. Loading a text
registers the documents in it one by one and stops at the first refusal, with
the earlier ones kept; a text that does not hold documents throughout registers
nothing.

* `Registry.register` — one registration, with what it reports.
* `Registry.load` — the registrations of a text.
* `Registry.resolve` — the first overload that takes the operands of a call.
-/

namespace ExtensionCatalog

/-- The overloads of one function (`FunctionOverloads`). -/
structure Entry where
  /-- The folded name, under which the function is looked up. -/
  key : String
  /-- The name as it was first registered. -/
  spelling : String
  /-- The overloads in the order of their registration. -/
  overloads : List Signature
deriving DecidableEq

/-- The functions of a catalog, in the order of their first registration
(`ExtensionFunctionRegistry`). -/
structure Registry where
  settings : Settings
  entries : List Entry
deriving DecidableEq

/-- What came of an attempt to change a registry: the registry afterwards, a
result or a refusal, and the reports of the attempt. -/
structure Outcome (α : Type) where
  registry : Registry
  result : Except SignatureError α
  log : List LogRecord

namespace Registry

/-- The registry of a new catalog (`new`). -/
def new (settings : Settings) : Registry :=
  ⟨settings, []⟩

/-! ### Looking up -/

/-- The entry of a name. -/
def find? (r : Registry) (name : String) : Option Entry :=
  r.entries.find? fun e => e.key = Text.foldName name

/-- The overloads of a name, none if it is unknown (`overloads`). -/
def overloads (r : Registry) (name : String) : List Signature :=
  match r.find? name with
  | some e => e.overloads
  | none => []

/-- The name has been registered (`contains`). -/
def contains (r : Registry) (name : String) : Bool :=
  (r.find? name).isSome

/-- The functions by their shown names. -/
def sortedEntries (r : Registry) : List Entry :=
  r.entries.mergeSort fun e f => e.spelling ≤ f.spelling

/-- The shown names of the functions, sorted (`names`). -/
def names (r : Registry) : List String :=
  r.sortedEntries.map Entry.spelling

/-- The number of overloads (`len`). -/
def size (r : Registry) : Nat :=
  (r.entries.flatMap Entry.overloads).length

/-- Nothing has been registered (`is_empty`). -/
def isEmpty (r : Registry) : Bool :=
  r.entries.isEmpty

/-- The first of some overloads that takes the operands of a call. -/
def firstMatch (operands : List SqlFamily) :
    List Signature → Except Fault (Option Signature)
  | [] => .ok none
  | s :: rest => do
    if (← s.operandFamilies) = operands then return some s
    else firstMatch operands rest

/-- The overload that a call of a name with some operands means (`resolve`). -/
def resolve (r : Registry) (name : String) (operands : List SqlFamily) :
    Except Fault (Option Signature) :=
  firstMatch operands (r.overloads name)

/-! ### Writing -/

/-- All overloads under the shown names, as an array of documents. -/
def json (r : Registry) : Json.Value :=
  .array (r.sortedEntries.flatMap fun e => e.overloads.map (·.json e.spelling))

/-- The written form of the registry (`to_json`). -/
def text (r : Registry) : String :=
  r.json.text

/-! ### Registering -/

/-- The entries with one for a name, as `register` opens it. One that is made for it
shows the name as it is spelled, and has no overloads yet. -/
def ensure (name : String) : List Entry → List Entry
  | [] => [⟨Text.foldName name, name, []⟩]
  | e :: rest => if e.key = Text.foldName name then e :: rest else e :: ensure name rest

/-- The entries with an overload added to the entry of a name. -/
def push (name : String) (s : Signature) : List Entry → List Entry
  | [] => []
  | e :: rest =>
    if e.key = Text.foldName name then { e with overloads := e.overloads ++ [s] } :: rest
    else e :: push name s rest

/-- Registers an overload under a name (`register`). It must pass its checks, and must
not be there already unless duplicates are allowed. -/
def register (r : Registry) (name : String) (s : Signature) : Outcome Unit :=
  match s.check name r.settings.checks.strictPointers with
  | .error e => ⟨r, .error e, []⟩
  | .ok () =>
    let opened := { r with entries := ensure name r.entries }
    if (opened.overloads name).any (·.sameTypes s) && !r.settings.checks.allowDuplicates then
      ⟨opened, .error (.duplicateOverload name), []⟩
    else
      ⟨{ opened with entries := push name s opened.entries }, .ok (),
        r.settings.logging.report .debug ("Registered extension function " ++ s.text name)⟩

/-- Registers what documents declare, up to the first refusal, and counts
them. -/
def registerAll (r : Registry) : List Document → Outcome Nat
  | [] => ⟨r, .ok 0, []⟩
  | d :: rest =>
    match d.decode with
    | .error e => ⟨r, .error e, []⟩
    | .ok (name, s) =>
      let first := r.register name s
      match first.result with
      | .error e => ⟨first.registry, .error e, first.log⟩
      | .ok () =>
        let others := first.registry.registerAll rest
        ⟨others.registry, others.result.map (· + 1), first.log ++ others.log⟩

/-- Registers what the documents of a text declare (`load_json`). -/
def load (r : Registry) (text : String) : Outcome Nat :=
  match Document.parseList? text with
  | none => ⟨r, .error .noDocument, []⟩
  | some documents =>
    let all := r.registerAll documents
    match all.result with
    | .error e => ⟨all.registry, .error e, all.log⟩
    | .ok n =>
      ⟨all.registry, .ok n, all.log ++
        r.settings.logging.report .info
          ("Loaded " ++ toString n ++ " extension function signatures")⟩

end Registry

end ExtensionCatalog
