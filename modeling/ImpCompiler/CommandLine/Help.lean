/-! # The help text -/

namespace ImpCompiler

/-- The version of the tool. -/
def version : String := "Screenit 0.1.0"

/-- The lines of the help text. -/
def helpLines : List String :=
  [
    "",
    "Screenit - a small imperative language compiled to SSA IR",
    "",
    "USAGE:",
    "    screenit                     Start REPL (interactive mode)",
    "    screenit <file.sit>          Compile and run a file",
    "    screenit -e \"<source>\"       Compile and run source text",
    "    screenit --help, -h          Show this help",
    "    screenit --version, -v       Show version",
    "",
    "OPTIONS:",
    "    --tokens                     Print the token stream instead of running",
    "    --ast                        Print the AST debug dump instead of running",
    "    --ast-json                   Print the AST as JSON instead of running",
    "    --emit-ir                    Print the generated IR instead of running",
    "    -o <path>                    Write IR to <path> (an object file if it ends in .o)",
    "",
    "Without the 'llvm_backend' feature programs cannot be executed; the IR is",
    "printed instead.",
    "",
    "REPL COMMANDS:",
    "    :help, :h                Show help",
    "    :quit, :q, :exit         Exit REPL",
    "    :clear, :c               Clear screen",
    "    :reset, :r               Forget defined functions",
    "    :load <file>             Compile and run a file",
    "    :source, :s              Show defined functions",
    "    :tokens <source>         Show tokens",
    "    :ast <source>            Show AST",
    "    :ir <source>             Show IR (with defined functions)",
    "",
    "Functions entered in the REPL are kept for later lines; variables are not.",
    "",
    "EXAMPLES:",
    "    screenit -e \"screenit 1 + 2;\"",
    "    screenit --emit-ir demos/fib.sit",
    "    screenit",
    "",
    "SYNTAX:",
    "    var x = 42;                          // Variable declaration",
    "    x = x + 1;                           // Assignment",
    "    screenit x;                          // Print",
    "    if (x > 1) \x7b screenit x; \x7d else \x7b screenit 0; \x7d",
    "    while (x > 0) \x7b x = x - 1; \x7d",
    "    for (var i = 0; i < 3; i = i + 1) \x7b screenit i; \x7d",
    "    func add(a, b) \x7b return a + b; \x7d     // Function definition",
    "    screenit add(1, 2);                  // Function call"]

/-- The help text; an empty line ends it. -/
def helpText : String :=
  "\n".intercalate helpLines ++ "\n\n"

end ImpCompiler
