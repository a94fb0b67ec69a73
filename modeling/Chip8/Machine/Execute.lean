import Chip8.Machine.Fault
import Chip8.Machine.Trace

/-!
What each instruction does, and one step of a machine: count down the timers, fetch a word, decode
and execute it. A fault leaves a machine too, and a run may go on from it.
-/

namespace Chip8.Machine

/-- The machine after an instruction or a step, and the fault that stopped it. -/
structure Outcome where
  machine : Machine
  fault : Option Fault

def done (m : Machine) : Outcome := ⟨m, none⟩

def stopped (m : Machine) (f : Fault) : Outcome := ⟨m, some f⟩

/-- Each hexadecimal digit has a sprite of this many bytes. -/
def glyphSize : Int := 5

/-- Whether the key whose number is in a register is held down; none if there is no such key. -/
def keyDown? (m : Machine) (x : Int) : Option Bool := m.keys[(m.reg x).toNat]?

def skipOnKey (m : Machine) (x : Int) (pressed : Bool) : Outcome :=
  match m.keyDown? x with
  | some down => done (m.skipIf (down == pressed))
  | none => stopped m (.key (m.reg x) x m.pc)

/-- The key with the lowest number among those held down. -/
def firstKey? (m : Machine) : Option (Fin 16) := (List.finRange 16).find? m.keys.get

def decimalDigits (b : UInt8) : List UInt8 := [b / 100, b / 10 % 10, b % 10]

/-- The bytes of the registers up to and including `x`. -/
def registersUpTo (m : Machine) (x : Int) : List UInt8 := m.v.toList.take (x + 1).toNat

/-- Puts bytes into the registers from `V0` on. -/
def setRegisters (m : Machine) (bytes : List UInt8) : Machine :=
  { m with v := Vector.ofFn fun k => bytes.getD k (m.v.get k) }

/-- Draws a sprite of `n` rows stored at the index. -/
def drawSprite (m : Machine) (x y n : Int) : Outcome :=
  match m.memory.readBlock m.i n with
  | .error f => stopped m (.memory f)
  | .ok rows =>
    match m.screen.drawSprite (m.reg x).toNat (m.reg y).toNat rows with
    | .error f => stopped m (.screen f)
    | .ok (collided, screen) =>
      done ({ m with screen := screen.markRedraw }.setFlag collided).next

def execute (m : Machine) : Instruction → Outcome
  | .sys _ => done m.next
  | .clear => done { m with screen := m.screen.clear }.next
  | .ret =>
    match m.stack.pop with
    | .ok (address, stack) => done { m with stack := stack, pc := address }
    | .error f => stopped m (.stack f)
  | .jump nnn => done { m with pc := nnn }
  | .call nnn =>
    match m.stack.push (m.pc + instructionSize) with
    | .ok stack => done { m with stack := stack, pc := nnn }
    | .error f => stopped m (.stack f)
  | .skipEqByte x kk => done (m.skipIf ((m.reg x).toNat == kk))
  | .skipNeByte x kk => done (m.skipIf ((m.reg x).toNat != kk))
  | .skipEq x y => done (m.skipIf (m.reg x == m.reg y))
  | .loadByte x kk => done (m.setReg x (UInt8.ofInt kk)).next
  | .addByte x kk => done (m.setReg x (m.reg x + UInt8.ofInt kk)).next
  | .move x y => done (m.setReg x (m.reg y)).next
  | .or x y => done (m.setReg x (m.reg x ||| m.reg y)).next
  | .and x y => done (m.setReg x (m.reg x &&& m.reg y)).next
  | .xor x y => done (m.setReg x (m.reg x ^^^ m.reg y)).next
  | .add x y =>
    let carry := 0xFF < (m.reg x).toNat + (m.reg y).toNat
    done ((m.setReg x (m.reg x + m.reg y)).setFlag carry).next
  | .sub x y => done ((m.setReg x (m.reg x - m.reg y)).setFlag (m.reg y ≤ m.reg x)).next
  | .shiftRight x _ =>
    -- The flag is set first, so `VF` shifts its own new value.
    let flagged := m.setFlag ((m.reg x).toNat % 2 = 1)
    done (flagged.setReg x (flagged.reg x >>> 1)).next
  | .subFrom x y => done ((m.setReg x (m.reg y - m.reg x)).setFlag (m.reg x ≤ m.reg y)).next
  | .shiftLeft x =>
    let flagged := m.setFlag (0x80 ≤ m.reg x)
    done (flagged.setReg x (flagged.reg x <<< 1)).next
  | .skipNe x y => done (m.skipIf (m.reg x != m.reg y))
  | .setIndex nnn => done { m with i := nnn }.next
  | .jumpOffset nnn => done { m with pc := (m.reg 0).toNat + nnn }
  | .random x kk =>
    let b := UInt8.ofInt (m.random m.draws) &&& UInt8.ofInt kk
    done ({ m with draws := m.draws + 1 }.setReg x b).next
  | .draw x y n => m.drawSprite x y n
  | .skipPressed x => m.skipOnKey x true
  | .skipReleased x => m.skipOnKey x false
  | .readDelay x =>
    if 0 ≤ m.dt ∧ m.dt < 256 then done (m.setReg x (UInt8.ofInt m.dt)).next
    else stopped m (.timer m.dt)
  | .waitKey x =>
    match m.firstKey? with
    | some key => done (m.setReg x (UInt8.ofNat key)).next
    | none => done m
  | .setDelay x => done { m with dt := (m.reg x).toNat }.next
  | .setSound x => done { m with st := (m.reg x).toNat }.next
  | .addIndex x => done { m with i := m.i + (m.reg x).toNat }.next
  | .fontIndex x => done { m with i := (m.reg x).toNat * glyphSize }.next
  | .storeDecimal x =>
    let (memory, fault) := m.memory.storeEach m.i (decimalDigits (m.reg x))
    let m := { m with memory := memory }
    match fault with
    | some f => stopped m (.memory f)
    | none => done m.next
  | .storeRegisters x =>
    match m.memory.writeBlock m.i (m.registersUpTo x) with
    | .ok memory => done { m with memory := memory }.next
    | .error f => stopped m (.memory f)
  | .loadRegisters x =>
    match m.memory.readBlock m.i (x + 1) with
    | .ok bytes => done (m.setRegisters bytes).next
    | .error f => stopped m (.memory f)

/-- Executes an instruction and, in a live trace, prints it first. -/
def perform (m : Machine) (inst : Instruction) : Outcome :=
  (if m.live then m.print (m.traceLine inst.mnemonic) else m).execute inst

/-- Takes a word as the current one, decodes and executes it. -/
def executeWord (m : Machine) (word : Int) : Outcome :=
  let m := { m with opcode := word }
  match Instruction.decode? (.ofInt word) with
  | some inst => m.perform inst
  | none => stopped m (.unknownOpcode (.ofInt word))

/-- The word at the program counter, its high byte first. -/
def fetch (m : Machine) : Except Fault Int :=
  match m.memory.readBlock m.pc instructionSize with
  | .ok bytes => .ok (bytes.foldl (fun (word : Int) b => word * 256 + b.toNat) 0)
  | .error f => .error (.memory f)

/-- Counts a step and counts down both timers; the buzzer sounds while the sound timer runs. -/
def countDown (m : Machine) : Machine :=
  { m with
    ticks := m.ticks + 1
    dt := if 0 < m.dt then m.dt - 1 else m.dt
    st := if 0 < m.st then m.st - 1 else m.st
    beeps := if 0 < m.st then m.beeps + 1 else m.beeps }

/-- One step. A halted machine does nothing; a word that is no instruction is reported, and the
program counter stays on it. -/
def step (m : Machine) : Outcome :=
  if m.halted then done m
  else
    let m := m.countDown
    match m.fetch with
    | .error f => stopped m f
    | .ok word =>
      match Instruction.decode? (.ofInt word) with
      | some inst => { m with opcode := word }.perform inst
      | none =>
        let m := { m with opcode := word }
        done (m.print (m.unknownReport (.ofInt word)))

end Chip8.Machine
