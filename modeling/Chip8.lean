import Chip8.Folder
import Chip8.HostLoop.Recorder
import Chip8.Machine.Run
import Chip8.Main
import Chip8.Proofs.Machine.Refusal
import Chip8.Proofs.Machine.Subroutine
import Chip8.Proofs.Machine.Footprint
import Chip8.Terminal.Pad
import Chip8.Proofs.Machine.Redraw
import Chip8.Proofs.Screen.Writes
import Chip8.Proofs.Binary64
import Chip8.Proofs.HostLoop.Tick
import Chip8.Proofs.HostLoop.Picture
import Chip8.Proofs.HostLoop.Bare
import Chip8.Proofs.HostLoop.Run
import Chip8.Proofs.Terminal.Push
import Chip8.Proofs.Session.Start
import Chip8.Proofs.Machine.ControlFlow
import Chip8.Proofs.Machine.Timers
import Chip8.Proofs.Machine.Inputs
import Chip8.Proofs.Machine.Tracing
import Chip8.Proofs.Memory.History
import Chip8.Proofs.Machine.Sprite
import Chip8.Proofs.Terminal.Exchange
import Chip8.Proofs.Terminal.Queue
import Chip8.Proofs.Screen.Switching
import Chip8.Proofs.Machine.Arithmetic
import Chip8.Proofs.Machine.Overlay
import Chip8.Proofs.Text.Integer
import Chip8.Proofs.Keymap
import Chip8.Proofs.Instruction.Encoding
import Chip8.Proofs.Text.Hex
import Chip8.Proofs.Instruction.Mnemonic
import Chip8.Proofs.Machine.Decoding
import Chip8.Proofs.Machine.Transfer
import Chip8.Proofs.Machine.Standstill
import Chip8.Proofs.Machine.KeyWait
import Chip8.Proofs.HostLoop.Reports
import Chip8.Proofs.HostLoop.Pacing
import Chip8.Proofs.Terminal.Pad
import Chip8.Proofs.Terminal.Picture
import Chip8.Proofs.Terminal.Repaint
import Chip8.Proofs.Window.Keyboard
import Chip8.Proofs.Window.Picture
import Chip8.Proofs.Machine.Readout
import Chip8.Proofs.CallStack.History
import Chip8.Proofs.Session.Close
import Chip8.Proofs.Terminal.Holding
import Chip8.Proofs.Screen.Torus
