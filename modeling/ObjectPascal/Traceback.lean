import ObjectPascal.Machine

/-!
The report of a fault: the frames that were live, outermost first, each with the last step taken in
it.
-/

namespace ObjectPascal

open Text (Json)

/-- A live frame in a report. -/
structure TracebackFrame where
  name : String
  callLocation : Option Location
  /-- The last step taken in the frame, with its index. -/
  entry : Option (Nat × LogEntry)

namespace TracebackFrame

/-- The place of the last step, or of the call if no step has a place. -/
def location (f : TracebackFrame) : Option Location :=
  (f.entry.bind fun (_, e) => e.location).or f.callLocation

/-- The lines about a frame. -/
def lines (verbose : Bool) (f : TracebackFrame) : List String :=
  let place :=
    match f.location with
    | none => [s!"  <unknown location> in {f.name}"]
    | some loc =>
      s!"  File \"{loc.file}\", line {loc.line}, in {f.name}" ::
        (if loc.statement = "" then [] else ["    " ++ loc.statement])
  let state :=
    match f.entry with
    | none => []
    | some (index, e) =>
      s!"    State log index: {index}  State id: {stateLabel index}" ::
        match verbose, e.snapshot with
        | true, some pairs =>
          ["    Env snapshot: " ++
            String.intercalate ", " (pairs.map fun (name, value) => name ++ "=" ++ value)]
        | _, _ => []
  place ++ state

def document (index : Nat) (f : TracebackFrame) : Json :=
  let place :=
    match f.location with
    | none => []
    | some loc =>
      [("source_location", Json.object
        [("file", .string loc.file), ("line", .number loc.line),
          ("statement", .string loc.statement)])]
  let state :=
    match f.entry with
    | none => []
    | some (step, e) =>
      [("state_id", Json.string (stateLabel step)), ("step_index", .number step),
        ("rewrite_record", .object (StepLog.record step e.step))] ++
        match e.snapshot with
        | none => []
        | some pairs =>
          [("env_snapshot", Json.object (pairs.map fun (name, value) => (name, .string value)))]
  .object ([("frame_index", .number index), ("name", .string f.name)] ++ place ++ state)

end TracebackFrame

namespace Machine

/-- The frames of a report: those noted in the fault, or those live now if none were noted. -/
def traceback (m : Machine) (error : RuntimeError) : List TracebackFrame :=
  (error.stack.getD m.store.liveFrames).map fun id =>
    ⟨(m.store.frame id).name, (m.store.frame id).callLocation, m.log.lastOf? id⟩

/-- The report as lines of text. -/
def tracebackText (m : Machine) (verbose : Bool) (error : RuntimeError) : String :=
  String.intercalate "\n"
    ("Traceback (most recent call last):" ::
      (m.traceback error).flatMap (TracebackFrame.lines verbose) ++
      [s!"{error.cause.kind}: {error.cause.message} (rewrite: {error.cause.rule})"])

/-- The report as a JSON document. -/
def tracebackJson (m : Machine) (error : RuntimeError) : String :=
  Json.print (.object
    [("error", .object
        [("type", .string error.cause.kind), ("message", .string error.cause.message),
          ("rewrite_rule", .string error.cause.rule),
          ("failing_step_index", error.step.elim .null fun i => .number i)]),
      ("traceback", .array
        ((m.traceback error).zipIdx.map fun (f, index) => f.document index))])

end Machine

end ObjectPascal
