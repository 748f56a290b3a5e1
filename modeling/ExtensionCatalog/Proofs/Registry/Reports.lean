import ExtensionCatalog.Proofs.Registry.History

/-!
# The reports of a run (spec §B.2)

A registry reports three kinds of events: an overload that was registered, a text
that was loaded to its end, and a search that ended without an overload. Each makes
one record, under the name that the settings give, and a record is kept back if its
level is. So the log tells, at its finest, the registrations of a run one by one and
in their order, also those of a text that was refused half way, and there are as
many of them as overloads in the registry.

* `log_handle`, `log_eq` — the log of one request and that of a run, by their
  events.
* `log_accounts_for_run` — what the log of a run holds, and what it does not.
-/

namespace ExtensionCatalog

/-! ### Events -/

/-- What is worth a report. -/
inductive Event where
  /-- An overload was registered under a name. -/
  | registered (name : String) (s : Signature)
  /-- A text was loaded, and so many overloads with it. -/
  | loaded (count : Nat)
  /-- A search ended without an overload. -/
  | missed (name : String) (operands : List SqlFamily)

namespace Event

def level : Event → Level
  | registered _ _ | missed _ _ => .debug
  | loaded _ => .info

def message : Event → String
  | registered name s => "Registered extension function " ++ s.text name
  | loaded count => "Loaded " ++ toString count ++ " extension function signatures"
  | missed name operands =>
    "No overload of '" ++ name ++ "' matches [" ++
      ", ".intercalate (operands.map SqlFamily.name) ++ "]"

@[simp] theorem message_registered (name : String) (s : Signature) :
    (registered name s).message = "Registered extension function " ++ s.text name := rfl

@[simp] theorem message_loaded (count : Nat) :
    (loaded count).message =
      "Loaded " ++ toString count ++ " extension function signatures" := rfl

@[simp] theorem message_missed (name : String) (operands : List SqlFamily) :
    (missed name operands).message = "No overload of '" ++ name ++ "' matches [" ++
      ", ".intercalate (operands.map SqlFamily.name) ++ "]" := rfl

/-- The record of an event under the name of the settings. -/
def record (target : String) (e : Event) : LogRecord :=
  ⟨e.level, target, e.message⟩

def isRegistered : Event → Bool
  | registered _ _ => true
  | _ => false

def isMissed : Event → Bool
  | missed _ _ => true
  | _ => false

end Event

/-- The record says that an overload was registered. -/
def LogRecord.tellsRegistered (r : LogRecord) : Bool :=
  r.level = .debug && r.message.startsWith "Registered extension function "

/-- The record says that a search ended without an overload. -/
def LogRecord.tellsMissed (r : LogRecord) : Bool :=
  r.level = .debug && r.message.startsWith "No overload of '"

theorem Event.tellsRegistered_record (target : String) (e : Event) :
    (e.record target).tellsRegistered = e.isRegistered := by
  rw [LogRecord.tellsRegistered, Bool.eq_iff_iff, Bool.and_eq_true,
    String.startsWith_string_iff]
  cases e <;> simp [record, level, isRegistered]

theorem Event.tellsMissed_record (target : String) (e : Event) :
    (e.record target).tellsMissed = e.isMissed := by
  rw [LogRecord.tellsMissed, Bool.eq_iff_iff, Bool.and_eq_true, String.startsWith_string_iff]
  cases e <;> simp [record, level, isMissed]

/-! ### Records of events -/

theorem LevelFilter.admits_debug_iff {f : LevelFilter} :
    f.admits .debug = true ↔ f ∈ [upTo .debug, upTo .trace] := by
  cases f with
  | off => simp [admits]
  | upTo most => cases most <;> simp [admits, Level.rank]

theorem LevelFilter.admits_info_iff {f : LevelFilter} :
    f.admits .info = true ↔ f ∈ [upTo .info, upTo .debug, upTo .trace] := by
  cases f with
  | off => simp [admits]
  | upTo most => cases most <;> simp [admits, Level.rank]

namespace Logging

/-- The records of some events that the filter lets pass. -/
def records (l : Logging) (events : List Event) : List LogRecord :=
  (events.filter fun e => l.filter.admits e.level).map (Event.record l.target)

theorem records_append (l : Logging) (before after : List Event) :
    l.records (before ++ after) = l.records before ++ l.records after := by
  simp [records]

theorem records_singleton (l : Logging) (e : Event) :
    l.records [e] = l.report e.level e.message := by
  rw [records, report, List.filter_singleton]
  cases l.filter.admits e.level <;> rfl

theorem records_cons (l : Logging) (e : Event) (rest : List Event) :
    l.records (e :: rest) = l.report e.level e.message ++ l.records rest := by
  rw [← List.singleton_append, records_append, records_singleton]

theorem records_loaded (l : Logging) (count : Nat) :
    l.records [.loaded count] =
      if l.filter ∈ [.upTo .info, .upTo .debug, .upTo .trace] then
        [Event.record l.target (.loaded count)]
      else [] := by
  rw [records_singleton, Logging.report]
  simp only [Event.level, LevelFilter.admits_info_iff]
  rfl

theorem target_of_mem_records {l : Logging} {events : List Event} {record : LogRecord}
    (h : record ∈ l.records events) : record.target = l.target := by
  obtain ⟨e, -, rfl⟩ := List.mem_map.mp h
  rfl

theorem admits_of_mem_records {l : Logging} {events : List Event} {record : LogRecord}
    (h : record ∈ l.records events) : l.filter.admits record.level = true := by
  obtain ⟨e, he, rfl⟩ := List.mem_map.mp h
  exact (List.mem_filter.mp he).2

/-- A filter that lets the finest records pass lets those of all events pass. -/
theorem records_of_admits_debug {l : Logging} (h : l.filter.admits .debug = true)
    (events : List Event) : l.records events = events.map (Event.record l.target) := by
  have hall : ∀ e ∈ events, l.filter.admits e.level = true := by
    intro e _
    refine LevelFilter.admits_of_le ?_ h
    cases e <;> simp [Event.level, Level.rank]
  rw [records, List.filter_eq_self.mpr hall]

/-- Records of one kind are those of the events of that kind. -/
theorem filter_records {l : Logging} (h : l.filter.admits .debug = true)
    {tells : LogRecord → Bool} {kind : Event → Bool}
    (htells : ∀ e, tells (e.record l.target) = kind e) (events : List Event) :
    (l.records events).filter tells = (events.filter kind).map (Event.record l.target) := by
  have hkind : tells ∘ Event.record l.target = kind := funext htells
  rw [records_of_admits_debug h, List.filter_map, hkind]

end Logging

/-! ### Events of a run -/

def Attempt.event (a : Attempt) : Event := .registered a.name a.signature

theorem Logging.level_of_mem_records_registered {l : Logging} {attempts : List Attempt}
    {record : LogRecord} (h : record ∈ l.records (attempts.map Attempt.event)) :
    record.level = .debug := by
  obtain ⟨e, he, rfl⟩ := List.mem_map.mp h
  obtain ⟨a, -, rfl⟩ := List.mem_map.mp (List.mem_of_mem_filter he)
  rfl

/-- A search that is answered, and answered by none. -/
def Request.miss? : Request → Answer → Option (String × List SqlFamily)
  | .resolve name operands, .resolve (.ok none) => some (name, operands)
  | _, _ => none

/-- What an answer is worth a report for, apart from the registrations that led to
it. -/
def Request.event? : Request → Answer → Option Event
  | .load _, .load (.ok count) => some (.loaded count)
  | .resolve name operands, .resolve (.ok none) => some (.missed name operands)
  | _, _ => none

namespace Request

/-- The answer to a request is no registration. -/
theorem filter_isRegistered_event? (q : Request) (answer : Answer) :
    (q.event? answer).toList.filter Event.isRegistered = [] := by
  unfold event?
  split <;> rfl

/-- The only searches that are reported are those without an overload. -/
theorem filter_isMissed_event? (q : Request) (answer : Answer) :
    (q.event? answer).toList.filter Event.isMissed =
      (q.miss? answer).toList.map fun miss => .missed miss.1 miss.2 := by
  unfold event? miss?
  split
  · rfl
  · rfl
  · rename_i hnone
    split
    · exact absurd rfl (hnone _ _ rfl)
    · rfl

end Request

namespace Registry

/-- The events of a request: first its registrations, then its answer. -/
def eventsOf (r : Registry) (q : Request) : List Event :=
  (succeeded (r.attempts q)).map Attempt.event ++ (q.event? (r.handle q).answer).toList

/-- The events of requests that are answered one after the other. -/
def events (r : Registry) : List Request → List Event
  | [] => []
  | q :: rest => r.eventsOf q ++ (r.handle q).registry.events rest

/-- The log of requests that are answered one after the other. -/
def log (r : Registry) (requests : List Request) : List LogRecord :=
  (r.run requests).flatMap Reply.log

/-- The searches of a run that ended without an overload. -/
def misses (r : Registry) (requests : List Request) : List (String × List SqlFamily) :=
  (requests.zip (r.run requests)).filterMap fun turn => turn.1.miss? turn.2.answer

theorem misses_cons (r : Registry) (q : Request) (rest : List Request) :
    r.misses (q :: rest) =
      (q.miss? (r.handle q).answer).toList ++ (r.handle q).registry.misses rest := by
  rw [misses, run, List.zip_cons_cons, List.filterMap_cons]
  cases q.miss? (r.handle q).answer <;> rfl

theorem log_register (r : Registry) (name : String) (s : Signature) :
    (r.register name s).log = r.settings.logging.records
      ((succeeded [⟨name, s, (r.register name s).result⟩]).map Attempt.event) := by
  rw [register_eq]
  cases r.refusal? name s with
  | some e => rfl
  | none => exact (Logging.records_singleton _ (.registered name s)).symm

theorem log_registerAll (r : Registry) (documents : List Document) :
    (r.registerAll documents).log = r.settings.logging.records
      ((succeeded (r.attemptsAll documents)).map Attempt.event) := by
  induction documents generalizing r with
  | nil => rfl
  | cons d rest ih =>
    cases hdecode : d.decode with
    | error e =>
      rw [registerAll, attemptsAll, hdecode]
      rfl
    | ok declared =>
      obtain ⟨name, s⟩ := declared
      rw [registerAll_cons hdecode, attemptsAll_cons hdecode]
      cases r.refusal? name s with
      | some e => rfl
      | none =>
        have hrest := ih (r.add name s)
        dsimp only
        rw [hrest]
        exact (Logging.records_cons _ (.registered name s) _).symm

theorem log_handle (r : Registry) (q : Request) :
    (r.handle q).log = r.settings.logging.records (r.eventsOf q) := by
  cases q with
  | register name s =>
    rw [eventsOf, Logging.records_append]
    exact (r.log_register name s).trans (List.append_nil _).symm
  | load text =>
    rw [eventsOf, Logging.records_append, handle, attempts, load]
    cases hparse : Document.parseList? text with
    | none => rfl
    | some documents =>
      dsimp only
      rw [← log_registerAll]
      cases (r.registerAll documents).result with
      | error e => exact (List.append_nil _).symm
      | ok count => exact congrArg _ (Logging.records_singleton _ (.loaded count)).symm
  | resolve name operands =>
    rw [eventsOf, attempts, handle, resolveLog]
    cases r.resolve name operands with
    | error fault => rfl
    | ok found =>
      cases found with
      | none => exact (Logging.records_singleton _ (.missed name operands)).symm
      | some s => rfl
  | overloads | contains | write => rfl

/-- A refusal is not an event. -/
theorem eventsOf_of_register_error {r : Registry} {q : Request} {e : SignatureError}
    (h : (r.handle q).answer = .register (.error e)) : r.eventsOf q = [] := by
  cases q with
  | register name s =>
    have hresult : (r.register name s).result = .error e := Answer.register.inj h
    rw [eventsOf, attempts, hresult]
    rfl
  | load | overloads | resolve | contains | write => cases h

theorem eventsOf_of_load_ok {r : Registry} {q : Request} {count : Nat}
    (h : (r.handle q).answer = .load (.ok count)) :
    r.eventsOf q = (succeeded (r.attempts q)).map Attempt.event ++ [.loaded count] := by
  cases q with
  | load text =>
    rw [eventsOf, h]
    rfl
  | register | overloads | resolve | contains | write => cases h

/-- A load that fails is told by the registrations that came before. -/
theorem eventsOf_of_load_error {r : Registry} {q : Request} {e : SignatureError}
    (h : (r.handle q).answer = .load (.error e)) :
    r.eventsOf q = (succeeded (r.attempts q)).map Attempt.event := by
  cases q with
  | load text =>
    rw [eventsOf, h]
    exact List.append_nil _
  | register | overloads | resolve | contains | write => cases h

/-- The log of a run holds the records of its events that the filter lets pass. -/
theorem log_eq (r : Registry) (requests : List Request) :
    r.log requests = r.settings.logging.records (r.events requests) := by
  induction requests generalizing r with
  | nil => rfl
  | cons q rest ih =>
    rw [events, Logging.records_append, ← log_handle, ← settings_handle r q, ← ih]
    rfl

/-! ### Events of one kind -/

theorem eventsOf_filter_isRegistered (r : Registry) (q : Request) :
    (r.eventsOf q).filter Event.isRegistered = (succeeded (r.attempts q)).map Attempt.event := by
  have hattempts : ((succeeded (r.attempts q)).map Attempt.event).filter Event.isRegistered =
      (succeeded (r.attempts q)).map Attempt.event := by
    rw [List.filter_eq_self, List.forall_mem_map]
    exact fun _ _ => rfl
  rw [eventsOf, List.filter_append, hattempts, q.filter_isRegistered_event?, List.append_nil]

theorem eventsOf_filter_isMissed (r : Registry) (q : Request) :
    (r.eventsOf q).filter Event.isMissed =
      (q.miss? (r.handle q).answer).toList.map fun miss => .missed miss.1 miss.2 := by
  have hattempts :
      ((succeeded (r.attempts q)).map Attempt.event).filter Event.isMissed = [] := by
    rw [List.filter_eq_nil_iff, List.forall_mem_map]
    exact fun _ _ => Bool.false_ne_true
  rw [eventsOf, List.filter_append, hattempts, q.filter_isMissed_event?, List.nil_append]

theorem events_filter_isRegistered (r : Registry) (requests : List Request) :
    (r.events requests).filter Event.isRegistered =
      (succeeded (r.history requests)).map Attempt.event := by
  induction requests generalizing r with
  | nil => rfl
  | cons q rest ih =>
    rw [events, history, succeeded_append, List.filter_append, List.map_append,
      eventsOf_filter_isRegistered, ih]

theorem events_filter_isMissed (r : Registry) (requests : List Request) :
    (r.events requests).filter Event.isMissed =
      (r.misses requests).map fun miss => .missed miss.1 miss.2 := by
  induction requests generalizing r with
  | nil => rfl
  | cons q rest ih =>
    rw [events, misses_cons, List.filter_append, List.map_append, eventsOf_filter_isMissed, ih]

theorem log_filter_tellsRegistered (r : Registry)
    (h : r.settings.logging.filter.admits .debug = true) (requests : List Request) :
    (r.log requests).filter LogRecord.tellsRegistered =
      (succeeded (r.history requests)).map
        (fun a => Event.record r.settings.logging.target (.registered a.name a.signature)) := by
  rw [log_eq, Logging.filter_records h (Event.tellsRegistered_record _),
    events_filter_isRegistered, List.map_map]
  rfl

theorem log_filter_tellsMissed (r : Registry)
    (h : r.settings.logging.filter.admits .debug = true) (requests : List Request) :
    (r.log requests).filter LogRecord.tellsMissed =
      (r.misses requests).map
        (fun miss => Event.record r.settings.logging.target (.missed miss.1 miss.2)) := by
  rw [log_eq, Logging.filter_records h (Event.tellsMissed_record _),
    events_filter_isMissed, List.map_map]
  rfl

/-- **The log accounts for the run.** If the finest records pass, it tells the
overloads that were registered, as many as there are in the registry, and the searches
that ended without one, each once and in their order; otherwise it has no such record.
A refusal is not reported, and a load tells its registrations as far as it came, and
how many they were only if it came to its end. -/
theorem log_accounts_for_run (settings : Settings) (requests : List Request) :
    let logging := settings.logging
    let log := (new settings).log requests
    let r := (new settings).after requests
    log = logging.records ((new settings).events requests) ∧
    (∀ record ∈ log, record.target = logging.target) ∧
    (logging.filter ∈ [.upTo .debug, .upTo .trace] →
      log.filter LogRecord.tellsRegistered =
        (succeeded ((new settings).history requests)).map
          (fun a => Event.record logging.target (.registered a.name a.signature)) ∧
      (log.filter LogRecord.tellsRegistered).length = r.size ∧
      log.filter LogRecord.tellsMissed =
        ((new settings).misses requests).map
          (fun miss => Event.record logging.target (.missed miss.1 miss.2))) ∧
    (logging.filter ∉ [.upTo .debug, .upTo .trace] → ∀ record ∈ log, record.level ≠ .debug) ∧
    ∀ q,
      let reply := r.handle q
      let told := logging.records ((succeeded (r.attempts q)).map Attempt.event)
      (∀ record ∈ told, record.level = .debug) ∧
      (∀ e, reply.answer = .register (.error e) → reply.log = []) ∧
      (∀ n, reply.answer = .load (.ok n) → reply.log = told ++
        if logging.filter ∈ [.upTo .info, .upTo .debug, .upTo .trace] then
          [Event.record logging.target (.loaded n)]
        else []) ∧
      ∀ e, reply.answer = .load (.error e) → reply.log = told := by
  intro logging log r
  have hlog : log = logging.records ((new settings).events requests) := log_eq _ _
  refine ⟨hlog, ?_, ?_, ?_, ?_⟩
  · rw [hlog]
    exact fun _ => Logging.target_of_mem_records
  · intro hfilter
    have hadmits : logging.filter.admits .debug = true := LevelFilter.admits_debug_iff.mpr hfilter
    have hregistered := log_filter_tellsRegistered (new settings) hadmits requests
    refine ⟨hregistered, ?_, log_filter_tellsMissed (new settings) hadmits requests⟩
    rw [hregistered, List.length_map, size_after]
    exact (Nat.zero_add _).symm
  · intro hfilter record hrecord hlevel
    rw [hlog] at hrecord
    have hadmits := Logging.admits_of_mem_records hrecord
    rw [hlevel] at hadmits
    exact hfilter (LevelFilter.admits_debug_iff.mp hadmits)
  · intro q reply told
    have hreply : reply.log = logging.records (r.eventsOf q) := by
      have hsettings : r.settings = settings := settings_after (new settings) requests
      rw [log_handle, hsettings]
    refine ⟨fun _ => Logging.level_of_mem_records_registered, ?_, ?_, ?_⟩
    · intro e herror
      rw [hreply, eventsOf_of_register_error herror]
      rfl
    · intro n hloaded
      rw [hreply, eventsOf_of_load_ok hloaded, Logging.records_append, Logging.records_loaded]
    · intro e herror
      rw [hreply, eventsOf_of_load_error herror]

end Registry

end ExtensionCatalog
