import LuatosPc.Base.Bytes

/-!
# Lua 5.3 functions and their binary form

What the report of `luat_luac_report.c` reads: the prototypes of Lua 5.3
functions and the bytes that the Lua compiler writes for them, with or without
debug information.  An `int` and an instruction take four bytes, and so does the
length of a string behind the marker `0xFF`.

* `Vm` — whether Lua numbers have 32 or 64 bits (`LUAT_CONF_VM_64bit`).
* `Constant`, `Body`, `Proto` — a function, with the functions defined in it.
* `dumpFunction`, `luacHeader` — the chunk.
* `Proto.size` — the number of functions of a tree.
-/

namespace LuatosPc.Luac

open LuatosPc.Bytes

/-- The two builds of the Lua machine. -/
inductive Vm where
  | bit32
  | bit64
  deriving DecidableEq, Repr

/-- `sizeof(lua_Integer)`, which is also `sizeof(lua_Number)`. -/
def Vm.size : Vm → Nat
  | bit32 => 4
  | bit64 => 8

/-- A C `int`. -/
abbrev CInt := BitVec 32

/-- The bits of a `lua_Integer` or of a `lua_Number`. -/
abbrev Word (vm : Vm) := BitVec (8 * vm.size)

/-- The bytes of a Lua string. -/
abbrev Str := List UInt8

/-- A constant of a function. -/
inductive Constant (vm : Vm) where
  | nil
  | boolean (b : Bool)
  | number (x : Word vm)
  | integer (x : Word vm)
  | shortString (s : Str)
  | longString (s : Str)

/-- A local variable: its name and the range of instructions in which it lives. -/
structure LocVar where
  varname : Option Str
  startpc : CInt
  endpc : CInt

/-- An upvalue: its name, and where the enclosing function keeps it. -/
structure Upvaldesc where
  name : Option Str
  instack : UInt8
  idx : UInt8

/-- A function apart from the functions defined in it. -/
structure Body (vm : Vm) where
  source : Option Str
  linedefined : CInt
  lastlinedefined : CInt
  numparams : UInt8
  isVararg : UInt8
  maxstacksize : UInt8
  code : List (BitVec 32)
  k : List (Constant vm)
  upvalues : List Upvaldesc
  lineinfo : List CInt
  locvars : List LocVar
  /-- A table of pointers to the constants fits into the memory of the machine;
  an instruction can name less than `2 ^ 26` of them. -/
  sizek_lt : k.length < 2 ^ 30

/-- A function prototype with its nested functions. -/
inductive Proto (vm : Vm) where
  | mk (body : Body vm) (p : List (Proto vm))

namespace Proto

variable {vm : Vm}

/-- The function itself. -/
def body : Proto vm → Body vm
  | mk b _ => b

/-- The functions defined in it. -/
def p : Proto vm → List (Proto vm)
  | mk _ p => p

mutual

/-- The number of functions of a tree. -/
def size : Proto vm → Nat
  | mk _ p => 1 + sizeAll p

/-- The number of functions of several trees. -/
def sizeAll : List (Proto vm) → Nat
  | [] => 0
  | f :: fs => f.size + sizeAll fs

end

/-- A property of functions that each inherits from its nested functions. -/
theorem induct {motive : Proto vm → Prop}
    (h : ∀ b p, (∀ c ∈ p, motive c) → motive (mk b p)) : ∀ f, motive f
  | mk b p => h b p fun c _ => induct h c
  decreasing_by
    have := List.sizeOf_lt_of_mem ‹c ∈ p›
    simp only [mk.sizeOf_spec]
    omega

theorem sizeAll_append (fs gs : List (Proto vm)) :
    sizeAll (fs ++ gs) = sizeAll fs + sizeAll gs := by
  induction fs with
  | nil => simp [sizeAll]
  | cons f fs ih => rw [List.cons_append, sizeAll, sizeAll, ih, Nat.add_assoc]

end Proto

/-! ## The dump -/

section

variable {vm : Vm}

/-- An `int`. -/
def dumpInt (x : CInt) : List UInt8 := leBytes 4 x.toNat

/-- The number of elements of something. -/
def dumpSize (n : Nat) : List UInt8 := dumpInt (BitVec.ofNat 32 n)

/-- A string with its terminator counted, or the absence of one. -/
def dumpString : Option Str → List UInt8
  | none => [0]
  | some s =>
    let size := s.length + 1
    if size < 0xFF then UInt8.ofNat size :: s else 0xFF :: (leBytes 4 size ++ s)

/-- The instructions. -/
def dumpCode (code : List (BitVec 32)) : List UInt8 :=
  dumpSize code.length ++ code.flatMap dumpInt

/-- A constant: its type and its value. -/
def dumpConstant : Constant vm → List UInt8
  | .nil => [0x00]
  | .boolean b => [0x01, if b then 1 else 0]
  | .number x => 0x03 :: leBytes vm.size x.toNat
  | .integer x => 0x13 :: leBytes vm.size x.toNat
  | .shortString s => 0x04 :: dumpString (some s)
  | .longString s => 0x14 :: dumpString (some s)

def dumpConstants (k : List (Constant vm)) : List UInt8 :=
  dumpSize k.length ++ k.flatMap dumpConstant

/-- Where the upvalues are kept. -/
def upvaluePairs (us : List Upvaldesc) : List UInt8 :=
  us.flatMap fun u => [u.instack, u.idx]

def dumpUpvalues (us : List Upvaldesc) : List UInt8 :=
  dumpSize us.length ++ upvaluePairs us

def dumpLocVar (v : LocVar) : List UInt8 :=
  dumpString v.varname ++ (dumpInt v.startpc ++ dumpInt v.endpc)

/-- The three tables of debug information. -/
def dumpTables (lineinfo : List CInt) (locvars : List LocVar) (names : List (Option Str)) :
    List UInt8 :=
  (dumpSize lineinfo.length ++ lineinfo.flatMap dumpInt) ++
    ((dumpSize locvars.length ++ locvars.flatMap dumpLocVar) ++
      (dumpSize names.length ++ names.flatMap dumpString))

namespace Body

variable (b : Body vm) (strip : Bool)

/-- The source name that is written: none without debug information, nor where it
is that of the enclosing function. -/
def dumpedSource (psource : Option Str) : Option Str :=
  if strip ∨ b.source = psource then none else b.source

/-- The line information that is written. -/
def dumpedLineinfo : List CInt := if strip then [] else b.lineinfo

/-- The local variables that are written. -/
def dumpedLocvars : List LocVar := if strip then [] else b.locvars

/-- The names of upvalues that are written. -/
def dumpedNames : List (Option Str) := if strip then [] else b.upvalues.map (·.name)

/-- The debug information. -/
def dumpDebug : List UInt8 :=
  dumpTables (b.dumpedLineinfo strip) (b.dumpedLocvars strip) (b.dumpedNames strip)

end Body

mutual

/-- A function, `psource` being the source name of the enclosing one. -/
def dumpFunction (strip : Bool) (psource : Option Str) : Proto vm → List UInt8
  | .mk b p =>
    dumpString (b.dumpedSource strip psource) ++ (dumpInt b.linedefined ++
      (dumpInt b.lastlinedefined ++ ([b.numparams] ++ ([b.isVararg] ++ ([b.maxstacksize] ++
        (dumpCode b.code ++ (dumpConstants b.k ++ (dumpUpvalues b.upvalues ++
          (dumpSize p.length ++ (dumpProtos strip b.source p ++ b.dumpDebug strip))))))))))

/-- Functions one after the other. -/
def dumpProtos (strip : Bool) (psource : Option Str) : List (Proto vm) → List UInt8
  | [] => []
  | f :: fs => dumpFunction strip psource f ++ dumpProtos strip psource fs

end

/-- `LUA_SIGNATURE`. -/
def luaSignature : List UInt8 := [0x1B, 0x4C, 0x75, 0x61]

/-- `LUAC_DATA`. -/
def luacData : List UInt8 := [0x19, 0x93, 0x0D, 0x0A, 0x1A, 0x0A]

/-- `LUAC_INT`. -/
def luacInt (vm : Vm) : Word vm := BitVec.ofNat _ 0x5678

/-- `LUAC_NUM`: the bits of `370.5`. -/
def luacNum : (vm : Vm) → Word vm
  | .bit32 => 0x43B94000#32
  | .bit64 => 0x4077280000000000#64

/-- The header of a chunk: signature, version and format, data that a transfer as
text would spoil, the sizes of the types, one integer, one float, and the number
of upvalues of the main function. -/
def luacHeader (f : Proto vm) : List UInt8 :=
  luaSignature ++ ([0x53, 0x00] ++ (luacData ++
    ([0x04, 0x04, 0x04, UInt8.ofNat vm.size, UInt8.ofNat vm.size] ++
      (leBytes vm.size (luacInt vm).toNat ++ (leBytes vm.size (luacNum vm).toNat ++
        [UInt8.ofNat f.body.upvalues.length])))))

theorem length_luacHeader (f : Proto vm) : (luacHeader f).length = 18 + 2 * vm.size := by
  simp only [luacHeader, luaSignature, luacData, List.length_append, List.length_cons,
    List.length_nil, length_leBytes]
  omega

end

end LuatosPc.Luac
