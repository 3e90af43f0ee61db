import ResumableTemplates.Workspace.Render

/-!
Evaluation of a single expression: it is compiled as part of a template, passed on to a probe and
printed after that. So both its values are seen, the one that is passed on and the one that is
printed.
-/
namespace ResumableTemplates

structure Evaluation where
  probed : List Record
  text : String
  pauses : Nat
  error : Option RenderError

namespace Evaluation

def name : String := "ns.eval"

def probe : String := "host.probe"

/-- A template with optional parameters that passes an expression on and prints it. -/
def template (params : List String) (e : Expr) : Template :=
  { Template.empty name with
    params := params.map .optional
    body := [.call (.template probe) .none [.value "v" e], .print e] }

def ofReports (reports : List Report) (calls : List ProbeCall) : Evaluation where
  probed := calls.map (·.params)
  text := ((reports.getLast?).map (·.sink.text)).getD ""
  pauses := reports.countP (·.isPaused)
  error := (reports.getLast?).bind fun r =>
    match r.result with
    | .error e => some e
    | .ok _ => none

end Evaluation

def Workspace.evaluate (w : Workspace) (params injected : Record) (e : Expr) :
    Except CompileError (Evaluation × Workspace) := do
  let t := Evaluation.template (params.map (·.1)) e
  let u ← CompiledUnit.compile {} [⟨"ns", [], [t]⟩] .empty
  let w := (w.addUnit t.name u).supply Evaluation.probe (.probe Evaluation.probe)
  let known := (w.templates.find? Evaluation.probe).map (Evaluation.probe, ·)
  let context := Context.of (fun _ => .fixed (.ofList known.toList) .empty .empty) Context.defaultMaxDepth
  let w := { w.addContext t.name context with sinks := w.sinks.insert t.name (.buffer "") }
  let run := do
    let r ← w.unitTemplate? t.name t.name
    w.run ⟨r, params, injected, ← w.contextNames.find? t.name⟩ t.name none
  let (reports, w) := run.getD ([], w)
  let (calls, w) := w.takeProbed
  return (.ofReports reports calls, w)

end ResumableTemplates
