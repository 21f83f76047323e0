import EngineBridge.Layout.Codec
import EngineBridge.Project.Pipeline

/-! What a generating run makes and tells, in JSON. -/

namespace EngineBridge

namespace DocumentError

/-- What an error tells behind its message. -/
def details : DocumentError → List (String × Json)
  | unparsable _ diagnostics => [("diagnostics", .texts diagnostics)]
  | _ => []

def toJson (e : DocumentError) : Json := .failure e.kind e.message e.details

end DocumentError

namespace LayoutError

def toJson (e : LayoutError) : Json := .failure e.kind e.message []

end LayoutError

namespace ContextError

def toJson (e : ContextError) : Json := .failure e.kind e.message []

end ContextError

namespace ExportError

def toJson (e : ExportError) : Json := .failure e.kind e.message []

end ExportError

namespace RunError

/-- What an error tells behind its message. -/
def details : RunError → List (String × Json)
  | document e => e.details
  | _ => []

def toJson (e : RunError) : Json := .failure e.kind e.message (e.details ++ [("display", .str e.display)])

end RunError

namespace Report

def toJson (r : Report) : Json := .record [
  ("display", .str r.display), ("success", .bool r.isSuccess), ("ok", .nat r.successes),
  ("warnings", .nat r.warnings), ("failures", .nat r.failures),
  ("entries", .list (fun e => .array [.str e.subject, .str e.outcome.severity, .str e.outcome.name,
    .option .str e.outcome.reason?]) r.entries),
  ("problems", .texts r.problems)]

end Report

namespace Artifact

/-- Where the text goes, and the text. -/
def toJson (a : Artifact) : Json := .array [.str a.path.text, .str a.contents]

end Artifact

namespace Path

def toJson (p : Path) : Json := .str p.text

end Path

namespace Trampoline.Output

/-- The fields of what the stage of the trampolines made. -/
def fields (o : Output) : List (String × Json) := [
  ("root", o.root.toJson), ("artifacts", .list Artifact.toJson o.artifacts), ("manifest", o.manifest.toJson),
  ("functions", .list (fun id => .str id.display) o.functions), ("report", o.report.toJson)]

end Trampoline.Output

namespace RunSummary

def toJson (s : RunSummary) : Json := .record [
  ("fast", .list (fun id => .str id.display) (FunctionId.sorted s.fast)),
  ("trampoline_root", .option Path.toJson s.trampolineRoot), ("checkpoint", .option Path.toJson s.checkpoint),
  ("reports", .record (s.reports.map fun r => (r.stage.name, r.toJson))),
  ("success", .bool s.isSuccess), ("problems", .texts s.problems),
  ("verdict", match s.verdict with
    | .ok () => .str "pass"
    | .error e => e.toJson),
  ("stages", .list (fun stage => .bool (s.report? stage).isSome) [Stage.trampolines, .wrappers, .placeholders])]

end RunSummary
end EngineBridge
