import Octet.Cpu.Step

/-!
# The machine

One memory and one processor, and a count of the instructions carried out. A step of the machine is
a step of the processor that also reads back what a print instruction has left above the stack
pointer.
-/
namespace Octet

/-- What a print instruction prints. -/
inductive Output where
  | decimal (byte : UInt8)
  | text (content : String)
  deriving DecidableEq, Repr

def Output.display : Output → String
  | .decimal byte => toString byte.toNat
  | .text content => content

/-- What a single step did. -/
inductive Event where
  | stepped
  | printed (output : Output)
  | halted
  deriving DecidableEq, Repr

structure Machine where
  memory : Memory
  cpu : Cpu
  /-- Instructions carried out since the last reset. -/
  steps : Nat
  deriving DecidableEq

namespace Machine

/-- A new machine. -/
def initial : Machine := ⟨.initial, .initial, 0⟩

/-- Reset memory and processor, and count from the start again. -/
def reset (machine : Machine) : Machine :=
  { machine with memory := machine.memory.reset, cpu := machine.cpu.reset, steps := 0 }

/-- Reset everything, then put an image into memory. An image that does not fit leaves the machine
reset. -/
def reload (machine : Machine) (image : List UInt8) : Except Fault Unit × Machine :=
  match machine.reset.memory.loadImage image with
  | .ok memory => (.ok (), { machine.reset with memory })
  | .error error => (.error ⟨.memory error, 0⟩, machine.reset)

/-- Put an image into a new machine. -/
def load (image : List UInt8) : Except Fault Unit × Machine := initial.reload image

/-- A reset makes a new machine of every machine. -/
@[simp] theorem reset_eq (machine : Machine) : machine.reset = initial := rfl

/-- What a machine has been through does not matter to what is loaded into it. -/
@[simp] theorem reload_eq (machine : Machine) (image : List UInt8) :
    machine.reload image = load image := rfl

/-- The cells that the last print instruction filled. -/
def output (machine : Machine) : List UInt8 :=
  machine.memory.slice machine.cpu.outputAddress machine.cpu.printLength

/-- What happened if the machine has just carried out this instruction. A text ends before its
first zero byte, and its other bytes are code points. -/
def event (machine : Machine) : Instruction → Event
  | .printDecimal _ => .printed (.decimal (machine.output.headD 0))
  | .printText _ =>
    let bytes := machine.output.takeWhile (· != 0)
    .printed (.text (String.ofList (bytes.map fun byte => Char.ofNat byte.toNat)))
  | _ => .stepped

/-- Carry out one instruction. Staying on the halt marker is not counted. -/
def step (machine : Machine) : Except Fault Event × Machine :=
  match machine.cpu.step machine.memory with
  | (.error fault, cpu, memory) => (.error fault, { machine with cpu, memory })
  | (.ok none, cpu, memory) => (.ok .halted, { machine with cpu, memory })
  | (.ok (some instruction), cpu, memory) =>
    let machine := ⟨memory, cpu, machine.steps + 1⟩
    (.ok (machine.event instruction), machine)

/-- The next fetch finds the halt marker. -/
def AtHalt (machine : Machine) : Prop :=
  machine.memory.cells[machine.cpu.ip.val]? = some Opcode.halt.toByte

instance (machine : Machine) : Decidable machine.AtHalt := inferInstanceAs (Decidable (_ = _))

end Machine

end Octet
