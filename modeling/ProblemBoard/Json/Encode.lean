import ProblemBoard.Json.Value
import ProblemBoard.Problem.Basic
import ProblemBoard.Project.Basic

/-!
# Problems and projects as JSON

The JSON forms that the command line prints.
-/

namespace ProblemBoard

namespace TextRange

def toJson (r : TextRange) : Json.Value :=
  .object [("end_col", .nat r.stop.column.toNat), ("end_line", .nat r.stop.line.toNat),
    ("start_col", .nat r.start.column.toNat), ("start_line", .nat r.start.line.toNat)]

end TextRange

namespace Problem

def toJson (p : Problem) : Json.Value :=
  .object [("code", .string? p.code), ("file_path", .string p.file.text),
    ("message", .string p.message), ("range", p.range.toJson),
    ("severity", .string p.severity.label), ("source", .string p.source)]

end Problem

namespace LintConfig

def toJson (c : LintConfig) : Json.Value :=
  .object [("format", .string c.format.name), ("path", .string c.path.text)]

end LintConfig

namespace Framework

def toJson (f : Framework) : Json.Value :=
  .object [("name", .string f.name), ("exclude_patterns", .strings f.excludes),
    ("uses_vue_checker", .bool f.componentChecker)]

end Framework

namespace ProjectWarning

def toJson : ProjectWarning → Json.Value
  | .typeCheckConfigNotFound root =>
      .object [("TypeCheckConfigNotFound", .object [("root", .string root.text)])]
  | .lintConfigNotFound root =>
      .object [("LintConfigNotFound", .object [("root", .string root.text)])]
  | .overrideNotFound kind path =>
      .object [("OverrideNotFound", .object [("kind", .string kind.name),
        ("path", .string path.text)])]
  | .manifestUnreadable path cause =>
      .object [("ManifestUnreadable", .object [("path", .string path.text),
        ("reason", .string cause.message)])]

end ProjectWarning

namespace Project

def toJson (p : Project) : Json.Value :=
  .object [("workspace_root", .string p.root.text),
    ("type_check_config", .string? (p.typeCheckConfig.map Path.text)),
    ("lint_config", (p.lintConfig.map LintConfig.toJson).getD .null),
    ("framework", (p.framework.map Framework.toJson).getD .null),
    ("warnings", .array (p.warnings.map ProjectWarning.toJson))]

end Project

end ProblemBoard
