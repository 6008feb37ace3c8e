import Speck.EmbeddedData

/-!
# Lines of LLVM text

What the emitter writes, line by line. A line keeps the temporaries and the labels that it names apart
from the rest of its text, and `Line.text` is how it is written. The types and the constants of the
program are written as they are in `llvm.rs` : a type whose array length was not resolved has no
text.
-/

namespace Speck

namespace Emitter

open EmbeddedData (intText i32Text)

/-! ## Operands and labels -/

/-- What an instruction works on : a temporary `%tN`, or anything else by its text. -/
inductive Operand where
  | temp (number : ℕ)
  | text (text : Text)
  deriving DecidableEq

def Operand.write : Operand → Text
  | temp number => "%t".toList ++ decimalText number
  | text written => written

/-- The name of a block. -/
inductive Label where
  | entry
  | numbered (stage : String) (number : ℕ)
  deriving DecidableEq

def Label.write : Label → Text
  | entry => "entry".toList
  | numbered stage number => stage.toList ++ '_' :: decimalText number

/-- A part of an instruction. -/
inductive Part where
  | text (text : Text)
  | operand (operand : Operand)
  | label (label : Label)

def Part.write : Part → Text
  | text written => written
  | operand value => value.write
  | label block => '%' :: block.write

instance : Coe String Part := ⟨fun text => .text text.toList⟩
instance : Coe Text Part := ⟨.text⟩
instance : Coe Operand Part := ⟨.operand⟩
instance : Coe Label Part := ⟨.label⟩

/-- An instruction, with the number of the temporary that it defines. -/
structure Instruction where
  result : Option ℕ
  parts : List Part

def Instruction.write (instruction : Instruction) : Text :=
  let text := instruction.parts.flatMap Part.write
  match instruction.result with
  | some number => (Operand.temp number).write ++ " = ".toList ++ text
  | none => text

/-- A value for each block before this one. -/
def phiParts (ty : String) (incoming : List (Part × Label)) : List Part :=
  "phi " :: ty :: " " :: List.intercalate ([", "] : List Part)
    (incoming.map fun (value, block) => ["[", value, ", ", block, "]"])

inductive Line where
  | define (header : Text)
  | label (label : Label)
  | instruction (instruction : Instruction)
  | terminator (instruction : Instruction)
  | close

def Line.write : Line → Text
  | define header => header
  | label block => block.write ++ [':']
  | instruction i | terminator i => "  ".toList ++ i.write
  | close => ['\x7d']

/-! ## Types -/

/-- `llvm_value_type`. -/
def llvmValueType : ValueType → Option Text
  | .i32 => some "i32".toList
  | .f32 => some "float".toList
  | .bool => some "i1".toList
  | .struct name => some ('%' :: symbolName "struct" name)
  | .array element (.resolved length) => do
    let element ← llvmValueType element
    pure ('[' :: decimalText length ++ " x ".toList ++ element ++ [']'])
  | .array _ _ => none

/-- `llvm_return_type`. -/
def llvmReturnType : ReturnType → Option Text
  | .value ty => llvmValueType ty
  | .void => some "void".toList

/-! ## Constants -/

/-- The bits of a finite value as a double. -/
def doubleBits (value : F32) : ℕ :=
  let sign := if value.bits.msb then 2 ^ 63 else 0
  let magnitude :=
    if value.exponent = 0 then
      if value.fraction = 0 then 0
      else
        -- A subnormal value is normal as a double.
        let leading := Nat.log2 value.fraction
        (leading + 874) * 2 ^ 52 + (value.fraction - 2 ^ leading) * 2 ^ (52 - leading)
    else (value.exponent + 896) * 2 ^ 52 + value.fraction * 2 ^ 29
  sign + magnitude

/-- `llvm_float`. -/
def llvmFloat (value : F32) : Text :=
  "0x".toList ++
    (List.range 16).map fun index => hexDigit (doubleBits value / 16 ^ (15 - index) % 16)

def boolText (value : Bool) : Text := (if value then "true" else "false").toList

def commaSeparated (texts : List Text) : Text := ", ".toList.intercalate texts

mutual

/-- `llvm_constant`. -/
def llvmConstant : ConstantValue → Option Text
  | .i32 value => some (i32Text value)
  | .f32 value => some (llvmFloat value)
  | .bool value => some (boolText value)
  | .struct _ fields => do
    let fields ← llvmFields fields
    pure ("\x7b ".toList ++ commaSeparated fields ++ " \x7d".toList)
  | .array elementType elements => do
    let elementType ← llvmValueType elementType
    let elements ← llvmElements elementType elements
    pure ('[' :: commaSeparated elements ++ [']'])

def llvmFields : List (String × ConstantValue) → Option (List Text)
  | [] => some []
  | (_, value) :: rest => do
    let ty ← llvmValueType value.ty
    let field ← llvmConstant value
    let rest ← llvmFields rest
    pure ((ty ++ ' ' :: field) :: rest)

def llvmElements (elementType : Text) : List ConstantValue → Option (List Text)
  | [] => some []
  | value :: rest => do
    let element ← llvmConstant value
    let rest ← llvmElements elementType rest
    pure ((elementType ++ ' ' :: element) :: rest)

end

def isAggregateConstant : ConstantValue → Bool
  | .array _ _ | .struct _ _ => true
  | _ => false

end Emitter

end Speck
