/-!
# Help

The texts that are shown on request.
-/

namespace JsonReport.Help

def text : String :=
  "Decode the LanguageTool client settings and print them\n" ++
  "\n" ++
  "Usage: ltjson [OPTIONS] [FILE]\n" ++
  "\n" ++
  "Arguments:\n" ++
  "  [FILE]  JSON file to decode instead of the built-in settings\n" ++
  "\n" ++
  "Options:\n" ++
  "      --typed          Decode into the settings record, filling defaults for missing keys\n" ++
  "      --compact        Print single-line JSON even on a terminal\n" ++
  "      --color <COLOR>  Colorize output and diagnostics: auto|always|never " ++
  "[default: auto] [possible values: auto, always, never]\n" ++
  "  -h, --help           Print help\n" ++
  "  -V, --version        Print version\n" ++
  "\n" ++
  "EXAMPLES\n" ++
  "  $ ltjson                     # decode the built-in settings\n" ++
  "  $ ltjson settings.json       # decode a file instead\n" ++
  "  $ ltjson --typed partial.json\n" ++
  "  $ RUST_LOG=debug ltjson --compact\n"

def version : String := "ltjson 0.1.0\n"

def hint : String := "Run `ltjson --help` for usage."

end JsonReport.Help
