import Chip8.Text.Hex
import Chip8.Text.Printable

/-!
Texts quoted for a message. Single quotes are preferred; a text that has single quotes and no
double ones is put between double quotes. Unprintable characters are written by their number.
-/

namespace Chip8.Text

def singleQuote : Char := '\x27'

def doubleQuote : Char := '\x22'

def quoteFor (cs : List Char) : Char :=
  if cs.contains singleQuote && !cs.contains doubleQuote then doubleQuote else singleQuote

/-- How one character is written between quotation marks `mark`. -/
def quotedChar (mark c : Char) : List Char :=
  if c = mark || c = '\x5c' then ['\x5c', c]
  else if c = '\t' then ['\x5c', 't']
  else if c = '\n' then ['\x5c', 'n']
  else if c = '\r' then ['\x5c', 'r']
  else if isPrintable c then [c]
  else if c.toNat < 0x100 then '\x5c' :: 'x' :: hexChars 2 c.toNat
  else if c.toNat < 0x10000 then '\x5c' :: 'u' :: hexChars 4 c.toNat
  else '\x5c' :: 'U' :: hexChars 8 c.toNat

def quoted (text : String) : String :=
  let cs := text.toList
  let mark := quoteFor cs
  String.ofList (mark :: cs.flatMap (quotedChar mark) ++ [mark])

end Chip8.Text
