/-!
# Help texts

The short text names each option in one line, and the long text also describes the
keys.
-/

namespace Chip8
namespace Help

def command : String := "emulator_text_ui"

def version : String := "chip-8-interpreter 0.1.0\n"

def usageLine : String := "Usage: " ++ command ++ " [OPTIONS] <ROM>"

def lines (texts : List String) : String := String.join (texts.map (· ++ "\n"))

def short : String :=
  lines [
    "Runs a CHIP-8 program in the terminal",
    "",
    usageLine,
    "",
    "Arguments:",
    "  <ROM>  Path to the program to load",
    "",
    "Options:",
    "      --ips <IPS>               Instructions executed per second [default: 700]",
    "      --index-overflow-sets-vf  Let FX1E set VF when I overflows past 0xFFF",
    "      --seed <SEED>             Seed for CXNN, for reproducible runs",
    "  -h, --help                    Print help (see more with '--help')",
    "  -V, --version                 Print version"]

def long : String :=
  lines [
    "Runs a CHIP-8 program in the terminal.",
    "",
    "Keys 1234/qwer/asdf/zxcv form the hexadecimal keypad, space releases all keys, " ++
      "up and down change the speed, F5 resets the machine, ~ toggles the log console " ++
      "and Esc quits.",
    "",
    usageLine,
    "",
    "Arguments:",
    "  <ROM>",
    "          Path to the program to load",
    "",
    "Options:",
    "      --ips <IPS>",
    "          Instructions executed per second",
    "          ",
    "          [default: 700]",
    "",
    "      --index-overflow-sets-vf",
    "          Let FX1E set VF when I overflows past 0xFFF",
    "",
    "      --seed <SEED>",
    "          Seed for CXNN, for reproducible runs",
    "",
    "  -h, --help",
    "          Print help (see a summary with '-h')",
    "",
    "  -V, --version",
    "          Print version"]

end Help
end Chip8
