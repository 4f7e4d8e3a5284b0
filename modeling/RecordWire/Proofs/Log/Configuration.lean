import RecordWire.Log.Logger

/-!
The shared logger under any number of configurations, whether or not some of them fail. The first
one that does not fail attaches its handler. After it a configuration fails only for its level, and
then changes nothing; before it one may also fail for its format, and then it has set the level.
-/

namespace RecordWire

variable {κ : Type}

/-- What a configuration is asked for with. -/
structure LogRequest (κ : Type) where
  level : Value
  format : Text
  handler : κ

namespace LogRequest

def level? (r : LogRequest κ) : Option Value := (LogLevel.resolve r.level).toOption

def format? (r : LogRequest κ) : Option Text := LogFormat.ofText? r.format

def isComplete (r : LogRequest κ) : Bool := r.level?.isSome && r.format?.isSome

/-- The last known level of some requests. -/
def lastLevel? (rs : List (LogRequest κ)) : Option Value := rs.reverse.findSome? level?

theorem lastLevel?_cons (r : LogRequest κ) (rs : List (LogRequest κ)) :
    lastLevel? (r :: rs) = (lastLevel? rs).or r.level? := by
  rw [lastLevel?, List.reverse_cons, List.findSome?_append, lastLevel?, List.findSome?_singleton]

theorem lastLevel?_append (rs ss : List (LogRequest κ)) :
    lastLevel? (rs ++ ss) = (lastLevel? ss).or (lastLevel? rs) := by
  rw [lastLevel?, List.reverse_append, List.findSome?_append, lastLevel?, lastLevel?]

theorem lastLevel?_filter (rs : List (LogRequest κ)) :
    lastLevel? (rs.filter fun r => r.level?.isSome) = lastLevel? rs := by
  induction rs with
  | nil => rfl
  | cons r rs ih =>
    cases h : r.level? <;> simp [lastLevel?_cons, h, ih]

theorem lastLevel?_of_suffix {rs ss : List (LogRequest κ)} (hs : ss <:+ rs)
    (h : (ss.filter fun r => r.level?.isSome) ≠ []) :
    lastLevel? (ss.filter fun r => r.level?.isSome) = lastLevel? rs := by
  obtain ⟨front, rfl⟩ := hs
  obtain ⟨r, hr⟩ := List.exists_mem_of_ne_nil _ h
  obtain ⟨hmem, hknown⟩ := List.mem_filter.1 hr
  have hsome : lastLevel? ss ≠ none := by
    intro hnone
    rw [lastLevel?, List.findSome?_eq_none_iff] at hnone
    rw [hnone r (List.mem_reverse.2 hmem)] at hknown
    cases hknown
  rw [lastLevel?_filter, lastLevel?_append]
  cases hl : lastLevel? ss with
  | none => exact absurd hl hsome
  | some level => rfl

end LogRequest

namespace Logger

open LogRequest (lastLevel? lastLevel?_cons lastLevel?_of_suffix)

def request (l : Logger κ) (r : LogRequest κ) : Logger κ × Option ConfigError :=
  l.configure r.level r.format r.handler

/-- The logger after requests, each made whatever became of the ones before. -/
def requestAll (l : Logger κ) (rs : List (LogRequest κ)) : Logger κ :=
  rs.foldl (fun l r => (l.request r).1) l

/-- The requests that do not fail, when all are made one after the other. -/
def granted (l : Logger κ) : List (LogRequest κ) → List (LogRequest κ)
  | [] => []
  | r :: rs =>
    if (l.request r).2.isNone then r :: (l.request r).1.granted rs else (l.request r).1.granted rs

variable {l : Logger κ} {r : LogRequest κ} {rs : List (LogRequest κ)} {level : Value}

theorem request_of_unknown (l : Logger κ) (h : r.level? = none) :
    (l.request r).1 = l ∧ (l.request r).2.isNone = false := by
  rw [LogRequest.level?] at h
  rw [request, configure]
  cases hr : LogLevel.resolve r.level with
  | error e => exact ⟨rfl, rfl⟩
  | ok level =>
    rw [hr] at h
    cases h

theorem attach?_eq_none_iff {handlers : List (Handler κ)} {format : Text} {kind : κ} :
    attach? handlers level format kind = none ↔
      handlers = [] ∧ LogFormat.ofText? format = none := by
  cases handlers <;> simp [attach?]

theorem request_of_known (l : Logger κ) (h : r.level? = some level) :
    l.request r = match attach? l.handlers level r.format r.handler with
      | none => ({ l with level }, some (.fault .badText))
      | some handlers => (⟨level, handlers.map fun h => { h with level := level }⟩, none) := by
  rw [LogRequest.level?] at h
  rw [request, configure]
  cases hr : LogLevel.resolve r.level with
  | error e =>
    rw [hr] at h
    cases h
  | ok known =>
    rw [hr] at h
    cases h
    rfl

theorem request_of_handler (handler : Handler κ) (h : r.level? = some level) :
    request ⟨handler.level, [handler]⟩ r = (⟨level, [{ handler with level := level }]⟩, none) :=
  request_of_known _ h

theorem request_of_bare (old : Value) (h : r.level? = some level) :
    request ⟨old, []⟩ r = match r.format? with
      | none => (⟨level, []⟩, some (.fault .badText))
      | some format => (⟨level, [⟨r.handler, level, format⟩]⟩, none) := by
  rw [request_of_known _ h, LogRequest.format?, attach?]
  cases LogFormat.ofText? r.format <;> rfl

theorem level_request (l : Logger κ) (r : LogRequest κ) :
    (l.request r).1.level = r.level?.getD l.level := by
  cases h : r.level? with
  | none => rw [(request_of_unknown l h).1, Option.getD_none]
  | some level =>
    rw [request_of_known l h]
    split <;> rfl

/-- The level is the last known one, also if its request failed for the format. -/
theorem level_requestAll (l : Logger κ) (rs : List (LogRequest κ)) :
    (l.requestAll rs).level = (lastLevel? rs).getD l.level := by
  induction rs generalizing l with
  | nil => rfl
  | cons r rs ih =>
    rw [requestAll, List.foldl_cons, ← requestAll, ih, level_request, lastLevel?_cons]
    cases lastLevel? rs <;> rfl

theorem requestAll_of_handler (handler : Handler κ) (rs : List (LogRequest κ)) :
    let l : Logger κ := ⟨handler.level, [handler]⟩
    (l.requestAll rs).handlers = [{ handler with level := (l.requestAll rs).level }] ∧
      l.granted rs = rs.filter fun r => r.level?.isSome := by
  induction rs generalizing handler with
  | nil => exact ⟨rfl, rfl⟩
  | cons r rs ih =>
    intro l
    rw [requestAll, List.foldl_cons, ← requestAll, granted]
    cases h : r.level? with
    | none =>
      obtain ⟨hs, he⟩ := request_of_unknown l h
      rw [hs, he]
      simpa [h] using ih handler
    | some level =>
      rw [request_of_handler handler h]
      simpa [h] using ih { handler with level := level }

theorem requestAll_of_bare (level : Value) (rs : List (LogRequest κ)) :
    let l : Logger κ := ⟨level, []⟩
    l.granted rs = (rs.dropWhile fun r => !r.isComplete).filter (fun r => r.level?.isSome) ∧
    (l.requestAll rs).handlers = ((l.granted rs).head?.bind fun r =>
      r.format?.map fun format => ⟨r.handler, (l.requestAll rs).level, format⟩).toList ∧
    ((l.requestAll rs).handlers = [] → l.granted rs = []) := by
  induction rs generalizing level with
  | nil => exact ⟨rfl, rfl, fun _ => rfl⟩
  | cons r rs ih =>
    intro l
    rw [requestAll, List.foldl_cons, ← requestAll, granted]
    cases h : r.level? with
    | none =>
      obtain ⟨hs, he⟩ := request_of_unknown l h
      rw [hs, he]
      simpa [LogRequest.isComplete, h] using ih level
    | some known =>
      rw [request_of_bare level h]
      cases hf : r.format? with
      | none => simpa [LogRequest.isComplete, h, hf] using ih known
      | some format =>
        obtain ⟨hhandlers, hgranted⟩ :=
          requestAll_of_handler ⟨r.handler, known, format⟩ rs
        simp [LogRequest.isComplete, h, hf, hhandlers, hgranted]

/-- Whatever the requests that a logger without a handler gets, it has one handler at most, and the
requests that do not fail are those of a known level from the first complete one on. The handler and
its format are those of the first of them. Its level and the level of the logger are the last known
one, which is that of the last of them if there is any. A request that fails for its level changes
nothing; one can fail for its format only as long as there is no handler, and then the level is changed
and nothing else. -/
theorem configure_run (level : Value) (rs : List (LogRequest κ)) :
    let l : Logger κ := requestAll ⟨level, []⟩ rs
    let done := granted ⟨level, []⟩ rs
    done = (rs.dropWhile fun r => !r.isComplete).filter (fun r => r.level?.isSome) ∧
    l.handlers.length ≤ 1 ∧
    l.handlers = (done.head?.bind fun r =>
      r.format?.map fun format => ⟨r.handler, l.level, format⟩).toList ∧
    l.level = (lastLevel? rs).getD level ∧
    (done ≠ [] → lastLevel? done = lastLevel? rs) ∧
    ∀ r, (l.request r).2 ≠ none →
      r.level? = none ∧ (l.request r).1 = l ∨
      ∃ known, r.level? = some known ∧ r.format? = none ∧ done = [] ∧
        (l.request r).1 = ⟨known, []⟩ := by
  intro l done
  obtain ⟨hdone, hhandlers, hnone⟩ := requestAll_of_bare level rs
  refine ⟨hdone, ?_, hhandlers, level_requestAll _ rs, fun hne => ?_, fun r hr => ?_⟩
  · rw [show l.handlers = _ from hhandlers]
    cases done.head?.bind _ <;> simp
  · rw [show done = _ from hdone] at hne ⊢
    exact lastLevel?_of_suffix (List.dropWhile_suffix _) hne
  · cases hlevel : r.level? with
    | none => exact .inl ⟨rfl, (request_of_unknown l hlevel).1⟩
    | some known =>
      rw [request_of_known l hlevel] at hr ⊢
      split at hr
      · rename_i hattach
        obtain ⟨hbare, hformat⟩ := attach?_eq_none_iff.1 hattach
        exact .inr ⟨known, rfl, hformat, hnone hbare, by rw [hbare]⟩
      · exact absurd rfl hr

/-- A text that is no format sets the level of a logger without a handler, though it is refused. -/
theorem configure_run_level :
    let l : Logger := {}
    let r : LogRequest HandlerKind := ⟨.int 10, "x", .null⟩
    (l.request r).2 = some (.fault .badText) ∧ (l.request r).1 = ⟨.int 10, []⟩ ∧
    l.level = .int 0 :=
  ⟨rfl, rfl, rfl⟩

end Logger

end RecordWire
