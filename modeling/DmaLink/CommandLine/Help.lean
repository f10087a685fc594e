import DmaLink.CommandLine.Arguments

namespace DmaLink.CommandLine

/-- The lines of a page of help. -/
def Topic.lines : Topic → List String
  | .overview =>
    ["ZS controller DMA link CLI",
      "",
      "Usage: zs <COMMAND>",
      "",
      "Commands:",
      "  layer     Print the shape of every layer in a layer file",
      "  status    Print the decoded MM2S and S2MM status registers",
      "  loopback  Stream a test pattern through the accelerator and compare the echo",
      "  help      Print this message or the help of the given subcommand(s)",
      "",
      "Options:",
      "  -h, --help     Print help",
      "  -V, --version  Print version"]
  | .layer =>
    ["Print the shape of every layer in a layer file",
      "",
      "Usage: zs layer <FILE>",
      "",
      "Arguments:",
      "  <FILE>  Binary layer file",
      "",
      "Options:",
      "  -h, --help  Print help"]
  | .status =>
    ["Print the decoded MM2S and S2MM status registers",
      "",
      "Usage: zs status [OPTIONS]",
      "",
      "Options:",
      "      --sim   Use the simulated loopback device instead of /dev/mem",
      "  -h, --help  Print help"]
  | .loopback =>
    ["Stream a test pattern through the accelerator and compare the echo",
      "",
      "Usage: zs loopback [OPTIONS]",
      "",
      "Options:",
      "      --sim                  Use the simulated loopback device instead of /dev/mem",
      "      --words <WORDS>        Number of 64-bit words to send [default: 256]",
      "      --interrupt            Wait for completion on UIO interrupts instead of polling status",
      "      --read-len <READ_LEN>  Bytes per S2MM transfer [default: 1024]",
      "  -h, --help                 Print help"]
  | .help =>
    ["Print this message or the help of the given subcommand(s)",
      "",
      "Usage: zs help [COMMAND]...",
      "",
      "Arguments:",
      "  [COMMAND]...  Print help for the subcommand(s)"]

end DmaLink.CommandLine
