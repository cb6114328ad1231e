/-!
# Help and version texts
-/

namespace LicenseExpr.CommandLine

def versionText : String := "spdx-expr 0.1.0\n"

def helpText : String :=
  "Command line front end for parsing SPDX license expressions\n" ++
  "\n" ++
  "Usage: spdx-expr [OPTIONS] [EXPRESSIONS]...\n" ++
  "\n" ++
  "Arguments:\n" ++
  "  [EXPRESSIONS]...  Expressions to parse; read one per line from stdin when omitted\n" ++
  "\n" ++
  "Options:\n" ++
  "      --dialect <DIALECT>      Grammar to apply (lenient, strict, spdx)\n" ++
  "      --max-depth <MAX_DEPTH>  Maximum parenthesis nesting accepted by the parser\n" ++
  "      --format <FORMAT>        Output format (tree, debug, json)\n" ++
  "      --log-level <LOG_LEVEL>  Log level (trace, debug, info, warn, error)\n" ++
  "  -h, --help                   Print help\n" ++
  "  -V, --version                Print version\n"

end LicenseExpr.CommandLine
