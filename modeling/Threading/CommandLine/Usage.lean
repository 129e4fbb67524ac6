import Threading.CommandLine.Options

/-!
# The usage text
-/
namespace Threading.CommandLine

/-- What is shown to a user who asks for help or is not understood. -/
def usage : String :=
  "End-to-end scenarios for the strand thread runtime\n\n" ++
  "Usage: strand-harness <COMMAND>\n\n" ++
  "Commands:\n" ++
  "  spawn         Create threads from concurrent creators and check registry accounting\n" ++
  "                  --creators <N> --threads <N> --stack-kib <N>\n" ++
  "                  --output <PATH> --run-id <ID>\n" ++
  "  lock-order    Exercise the lock-order observer with a consistent order and an inversion\n" ++
  "                  --workers <N> --iterations <N> --no-inversion --capture-stacks\n" ++
  "                  --output <PATH> --run-id <ID>\n" ++
  "  validate-log  Validate a JSONL scenario log\n" ++
  "                  --log <PATH>\n" ++
  "  help          Print this message\n"

end Threading.CommandLine
