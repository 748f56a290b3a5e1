import ExtensionCatalog.Registry.Basic

/-!
# Sessions with a registry (spec §C.5, §B.2)

A registry answers requests one after the other: registrations, which may
change it, and queries, which do not. Every answer comes with the reports that
were made meanwhile.

* `Registry.handle` — one request.
* `Registry.run` — a sequence of requests; `Registry.after` is the registry behind it.
-/

namespace ExtensionCatalog

/-- A request to a registry. -/
inductive Request where
  /-- Register an overload of a name. -/
  | register (name : String) (s : Signature)
  /-- Register what the documents of a text declare. -/
  | load (text : String)
  /-- The overloads of a name. -/
  | overloads (name : String)
  /-- The overload that a call means. -/
  | resolve (name : String) (operands : List SqlFamily)
  /-- Whether the name is registered. -/
  | contains (name : String)
  /-- The registry in writing. -/
  | write

/-- The answer to a request of the same name. -/
inductive Answer where
  | register (result : Except SignatureError Unit)
  | load (result : Except SignatureError Nat)
  | overloads (found : List Signature)
  | resolve (found : Except Fault (Option Signature))
  | contains (found : Bool)
  | write (text : String)

/-- The registry after a request, the answer, and the reports of the request. -/
structure Reply where
  registry : Registry
  answer : Answer
  log : List LogRecord

namespace Registry

/-- What a search for an overload reports (in `resolve`): that there is none. -/
def resolveLog (r : Registry) (name : String) (operands : List SqlFamily) : List LogRecord :=
  match r.resolve name operands with
  | .ok none =>
    r.settings.logging.report .debug
      ("No overload of '" ++ name ++ "' matches [" ++
        ", ".intercalate (operands.map SqlFamily.name) ++ "]")
  | _ => []

/-- Answers a request. -/
def handle (r : Registry) : Request → Reply
  | .register name s =>
    let o := r.register name s
    ⟨o.registry, .register o.result, o.log⟩
  | .load text =>
    let o := r.load text
    ⟨o.registry, .load o.result, o.log⟩
  | .overloads name => ⟨r, .overloads (r.overloads name), []⟩
  | .resolve name operands =>
    ⟨r, .resolve (r.resolve name operands), r.resolveLog name operands⟩
  | .contains name => ⟨r, .contains (r.contains name), []⟩
  | .write => ⟨r, .write r.text, []⟩

/-- Answers requests one after the other. -/
def run (r : Registry) : List Request → List Reply
  | [] => []
  | q :: rest => r.handle q :: (r.handle q).registry.run rest

/-- The registry after some requests. -/
def after (r : Registry) (requests : List Request) : Registry :=
  requests.foldl (fun r q => (r.handle q).registry) r

end Registry

end ExtensionCatalog
