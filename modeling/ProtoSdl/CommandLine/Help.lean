/-!
  Help — what the program tells about itself
-/

namespace ProtoSdl.CommandLine

/-- The name by which the program speaks of itself. -/
def programName : String := "proto2gql"

/-- The line that shows how the program is called. -/
def usage : String := "usage: " ++ programName ++ " [-h] [-r] [-I DIR] [-j JOBS] input output"

/-- The lines of the help text. -/
def helpLines : List String :=
  [usage,
   "",
   "Convert proto3 schemas into GraphQL SDL. Currently only proto3 is supported.",
   "",
   "positional arguments:",
   "  input                 Path to a .proto file or a directory containing .proto",
   "                        files",
   "  output                Output directory for generated .graphql file(s)",
   "",
   "options:",
   "  -h, --help            show this help message and exit",
   "  -r, --recursive       Search the input directory recursively",
   "  -I DIR, --proto-path DIR",
   "                        Additional directory to search for imports (may be",
   "                        repeated)",
   "  -j JOBS, --jobs JOBS  Number of files to convert concurrently"]

end ProtoSdl.CommandLine
