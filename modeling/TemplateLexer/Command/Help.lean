import TemplateLexer.Bytes.Basic

/-!
# Help texts

What the program prints about itself.
-/

namespace TemplateLexer.Command

open Bytes

/-- The version of the program. -/
def version : Bytes := ascii "0.1.0"

/-- The answer to a question for the version. -/
def versionText : Bytes := ascii "hbs " ++ version ++ ascii "\n"

/-- The answer to a question for help. -/
def helpText : Bytes :=
  ascii "HBS Template Tokenizer " ++ version ++ ascii "\n\n"
    ++ ascii "Usage: hbs <command> <file> [options]\n\n"
    ++ ascii "Commands:\n"
    ++ ascii "  scan      Print the token stream of a template\n"
    ++ ascii "  check     Report scan errors only\n"
    ++ ascii "\nOptions:\n"
    ++ ascii "  --delimiters=\"OPEN CLOSE\"  Scan with a custom delimiter pair\n"
    ++ ascii "  --gettext                  Enable \x7b\x7b_ ...\x7d\x7d and "
    ++ ascii "\x7b\x7bngettext ...\x7d\x7d\n"
    ++ ascii "  --option key=value         Set a tokenizer option\n"
    ++ ascii "  --help, -h                 Show this help\n"
    ++ ascii "  --version, -V              Show version\n"
    ++ ascii "\nLogging:\n"
    ++ ascii "  -v, -vv, -vvv              Info, debug or trace output\n"
    ++ ascii "  -q, --quiet                Errors only\n"
    ++ ascii "  --log-level=<level>        trace|debug|info|warn|error|fatal|off\n"
    ++ ascii "  --log-filter=<spec>        Per-module levels, e.g. lexer=trace\n"
    ++ ascii "  --log-file=<path>          Also write log records to a file\n"
    ++ ascii "  --log-format=<text|json>   Log record format\n"
    ++ ascii "\nThe HBS_LOG environment variable is read when no level is given.\n"

end TemplateLexer.Command
