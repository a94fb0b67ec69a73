/-!
The help page of the command line.
-/

namespace Chip8.CommandLine

def programName : String := "peachip.py"

def usageLines : List String := [
  "usage: " ++ programName ++ " [-h] [-r \x7bpygame,curses,null\x7d] [-s SCALE] [-m \x7b0,1\x7d]",
  "                  [-k KEYMAP] [-d]",
  "                  filename"]

def argumentLines : List String := [
  "positional arguments:",
  "  filename              ROM to execute (normally ending in .ch8 or .c8)",
  "",
  "options:",
  "  -h, --help            show this help message and exit",
  "  -r \x7bpygame,curses,null\x7d, --renderer \x7bpygame,curses,null\x7d",
  "                        set the rendering, input, and audio systems (pygame by",
  "                        default if available, otherwise curses)",
  "  -s SCALE, --scale SCALE",
  "                        set the window width in PyGame mode (default 512), and",
  "                        scale in Curses mode (default 2)",
  "  -m \x7b0,1\x7d, --mute \x7b0,1\x7d",
  "                        mute the emulated audio. 0 = unmuted (default for",
  "                        PyGame), 1 = muted (default for Curses)",
  "  -k KEYMAP, --keymap KEYMAP",
  "                        redefine the 16 keyscan codes (PyGame) or character",
  "                        numbers (Curses). Separate each decimal with a comma",
  "  -d, --debug           enable live debug output before every instruction.",
  "                        Slows CPU execution"]

/-- The text of lines, each ended by a line end. -/
def linesText (lines : List String) : String := String.join (lines.map (· ++ "\n"))

/-- The short reminder that comes before an error. -/
def usageText : String := linesText usageLines

def helpText : String := linesText (usageLines ++ "" :: argumentLines)

end Chip8.CommandLine
