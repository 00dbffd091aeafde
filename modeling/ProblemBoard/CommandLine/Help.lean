import ProblemBoard.CommandLine.Arguments

/-!
# Help

The texts on how the program is used.
-/

namespace ProblemBoard.CommandLine

/-- What the program is for. -/
def purpose : String :=
  "Aggregate type-check and lint diagnostics for a JavaScript/TypeScript workspace"

def CommandName.text : CommandName → String
  | .scan => "scan"
  | .watch => "watch"
  | .config => "config"

def CommandName.purpose : CommandName → String
  | .scan => "Scan once and print the grouped diagnostics"
  | .watch => "Rescan whenever the workspace changes"
  | .config => "Print the resolved project configuration as JSON"

/-- The line on an option. -/
def OptionName.helpLine : OptionName → String
  | .root => "  -C, --root <ROOT>      Workspace root (defaults to the current directory)"
  | .settings =>
      "      --config <CONFIG>  Settings file to use instead of .lintlens.toml or " ++
        "~/.lintlens/config.toml"
  | .group => "      --group <GROUP>    Group by file, rule or both"
  | .json => "      --json             Print records as JSON instead of a tree"
  | .help => "  -h, --help             Print help"

/-- The options of a command in the order in which they are listed. -/
def CommandName.options : CommandName → List OptionName
  | .scan => [.root, .group, .settings, .json, .help]
  | .watch => [.root, .group, .settings, .help]
  | .config => [.root, .settings, .help]

/-- The text on a command, or on the whole program. -/
def helpLines : Option CommandName → List String
  | none =>
      [purpose, "", "Usage: lintlens [OPTIONS] <COMMAND>", "", "Commands:",
        "  scan    " ++ CommandName.scan.purpose,
        "  watch   " ++ CommandName.watch.purpose,
        "  config  " ++ CommandName.config.purpose,
        "  help    Print this message or the help of the given subcommand(s)", "",
        "Options:"] ++ [OptionName.root, .settings, .help].map OptionName.helpLine
  | some c =>
      [c.purpose, "", "Usage: lintlens " ++ c.text ++ " [OPTIONS]", "", "Options:"] ++
        c.options.map OptionName.helpLine

end ProblemBoard.CommandLine
