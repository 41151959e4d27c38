import LuatosPc.Base.Program
import LuatosPc.Luac.Dump

/-!
# Reading a luac chunk into a report

The model of the reader in `luat_luac_report.c`: it runs over a chunk with a bare
pointer, fills the tables of `luac_report_t` and links the functions it finds
into a graph of `luf_func_t`.  All builds of the simulator are for 32-bit
machines, so a `size_t` has 32 bits.

* `Group`, `LuacData`, `Ref` — the data groups of a report, their entries, and
  pointers to entries.
* `LufFunc`, `Report` — `luf_func_t` and `luac_report_t`.
* `Fault` — what stops the process: a read behind the file, a store outside a
  table.
* `loadString` … `loadFunction` — the functions of the source.  The nesting of
  `loadFunction` is bounded by the table of functions: each call takes the next
  slot, and there are 1024.
* `luadbDoReportFile` — the check of the header and the reading of the chunk.
-/

namespace LuatosPc.Luac

open LuatosPc.Bytes

/-- The data groups of `luac_report_t`. -/
inductive Group where
  | strs
  | codes
  | numbers
  | upvalues
  | lineNumbers
  deriving DecidableEq, Repr

/-- The union of `luac_data_t`. -/
inductive Value (vm : Vm) where
  /-- A pointer to a block of its own, or `NULL`. -/
  | data (block : Option Block)
  | nnum (x : Word vm)
  | nint (x : Word vm)

/-- `luac_data_t`, without the fields that stay zero while a file is read. -/
structure LuacData (vm : Vm) where
  value : Value vm
  len : Nat
  mark : UInt8
  type : UInt8

/-- A pointer to an entry of a data group. -/
structure Ref where
  group : Group
  index : Nat
  deriving DecidableEq, Repr

/-- `luf_func_t`.  A block of pointers or numbers from the heap is a list of
slots, `none` where nothing has been stored; `p` holds positions in the table of
functions. -/
structure LufFunc where
  numparams : UInt8
  isVararg : UInt8
  maxstacksize : UInt8
  sizeupvalues : Nat
  sizek : Nat
  sizecode : Nat
  sizelineinfo : Nat
  sizep : Nat
  sizelocvars : Nat
  linedefined : CInt
  lastlinedefined : CInt
  sizeupvalues2 : Nat
  k : List (Option Ref)
  code : Option Ref
  lineinfo : Option Ref
  locvars : List (Option CInt)
  locvars2 : List (Option Ref)
  upvalues : List UInt8
  upvalues2 : List (Option Ref)
  source : Option Ref
  p : Nat → Option Nat

/-- A function record of zeros. -/
def LufFunc.zero : LufFunc where
  numparams := 0
  isVararg := 0
  maxstacksize := 0
  sizeupvalues := 0
  sizek := 0
  sizecode := 0
  sizelineinfo := 0
  sizep := 0
  sizelocvars := 0
  linedefined := 0
  lastlinedefined := 0
  sizeupvalues2 := 0
  k := []
  code := none
  lineinfo := none
  locvars := []
  locvars2 := []
  upvalues := []
  upvalues2 := []
  source := none
  p := fun _ => none

/-- `luac_report_t`.  The count of a data group is the length of its list. -/
structure Report (vm : Vm) where
  group : Group → List (LuacData vm)
  lufFuncs : Nat → LufFunc
  funcCount : Nat

/-- The report that `luadb_do_report` hands to the reader, all zeros. -/
def Report.zero (vm : Vm) : Report vm := ⟨fun _ => [], fun _ => .zero, 0⟩

/-- What the reader works on: the file from the cursor on, and the report. -/
structure St (vm : Vm) where
  ptr : List UInt8
  rpt : Report vm

/-- Why the process stops. -/
inductive Fault where
  /-- A byte behind the end of the file is read. -/
  | readPast
  /-- A store outside a table or a block. -/
  | overrun
  deriving DecidableEq, Repr

/-- A function of the reader. -/
abbrev Load (vm : Vm) := Prog Fault (St vm)

variable {vm : Vm}

/-! ## Stores -/

/-- `group.data[group.count] = d; group.count++`, with a pointer to the entry. -/
def push (g : Group) (d : LuacData vm) : Load vm Ref := fun s =>
  if (s.rpt.group g).length < 32 * 1024 then
    .ok (⟨g, (s.rpt.group g).length⟩,
      { s with rpt.group := Function.update s.rpt.group g (s.rpt.group g ++ [d]) })
  else .error .overrun

/-- A store to a field of the entry `group.data[group.count]` that is not counted
yet. -/
def touch (g : Group) : Load vm Unit := fun s =>
  if (s.rpt.group g).length < 32 * 1024 then .ok ((), s) else .error .overrun

/-- A store to a field of `luf_funcs[id]`. -/
def setFunc (id : Nat) (upd : LufFunc → LufFunc) : Load vm Unit := fun s =>
  if id < 1024 then
    .ok ((), { s with rpt.lufFuncs := Function.update s.rpt.lufFuncs id (upd (s.rpt.lufFuncs id)) })
  else .error .overrun

/-- `luat_heap_malloc(n * size)` for slots of `size` bytes. -/
def slots {α : Type} (n : CInt) (size : Nat) : List (Option α) :=
  List.replicate (n.toNat * size % 2 ^ 32 / size) none

/-- A store to slot `i` of a block that `luf_funcs[id]` points to, given by how to
read and how to replace the block. -/
def setSlot {α : Type} (id : Nat) (block : LufFunc → List (Option α))
    (put : LufFunc → List (Option α) → LufFunc) (i : Nat) (x : α) : Load vm Unit := fun s =>
  if i < (block (s.rpt.lufFuncs id)).length then
    setFunc id (fun f => put f ((block f).set i (some x))) s
  else .error .overrun

/-! ## Loads -/

/-- `LoadBlock`. -/
def loadBlock (size : Nat) : Load vm (List UInt8) := fun s =>
  if size ≤ s.ptr.length then .ok (s.ptr.take size, { s with ptr := s.ptr.drop size })
  else .error .readPast

/-- `LoadInt`. -/
def loadInt : Load vm CInt := do
  return BitVec.ofNat 32 (leValue (← loadBlock 4))

/-- `LoadByte`. -/
def loadByte : Load vm UInt8 := do
  return UInt8.ofNat (leValue (← loadBlock 1))

/-- `LoadNumber`. -/
def loadNumber : Load vm (Word vm) := do
  return BitVec.ofNat _ (leValue (← loadBlock vm.size))

/-- `LoadInteger`. -/
def loadInteger : Load vm (Word vm) := do
  return BitVec.ofNat _ (leValue (← loadBlock vm.size))

/-- The length of a string whose first byte is `b`. -/
def loadLength (b : UInt8) : Load vm Nat := do
  if b = 0xFF then
    return (← loadInt).toNat
  else
    return b.toNat

/-- The second half of `LoadString`: a cleared block of `len` bytes, all but the
last of them read from the file. -/
def loadChars (len : Nat) : Load vm (Option Block × Nat) := do
  if 1 < len then
    let s ← loadBlock (len - 1)
    return (some (s ++ [0]), len)
  else
    return (some (List.replicate len 0), len)

/-- `LoadString`: the block with the terminated string, and its length. -/
def loadString : Load vm (Option Block × Nat) := do
  let b ← loadByte
  if b = 0 then
    return (none, 0)
  else
    loadChars (← loadLength b)

/-- `LoadCode`. -/
def loadCode : Load vm (Block × Nat) := do
  let n ← loadInt
  let len := n.toNat * 4 % 2 ^ 32
  let buff ← loadBlock len
  return (buff, len)

/-! The types of constants, from `lua.h` and `lobject.h`. -/

/-- `LUA_TNIL`. -/
def luaTNil : UInt8 := 0x00

/-- `LUA_TBOOLEAN`. -/
def luaTBoolean : UInt8 := 0x01

/-- `LUA_TNUMFLT`. -/
def luaTNumflt : UInt8 := 0x03

/-- `LUA_TNUMINT`. -/
def luaTNumint : UInt8 := 0x13

/-- `LUA_TSTRING`, which is also `LUA_TSHRSTR`. -/
def luaTString : UInt8 := 0x04

/-- `LUA_TLNGSTR`. -/
def luaTLngstr : UInt8 := 0x14

/-- A string of the debug information goes to the group of strings. -/
def loadName : Load vm Ref := do
  let (data, len) ← loadString
  push .strs ⟨.data data, len, 0, if len ≤ 41 then luaTString else luaTLngstr⟩

/-- `f->k[i] = r`. -/
def setK (id i : Nat) (r : Ref) : Load vm Unit :=
  setSlot id (·.k) (fun f k => { f with k := k }) i r

/-- The body of the loop of `LoadConstants`; an unknown type ends the loop. -/
def loadConstant (id i : Nat) : Load vm Bool := do
  let t ← loadByte
  if t = luaTNil then
    return true
  else if t = luaTBoolean then
    let x ← loadByte
    setK id i (← push .numbers ⟨.nint (BitVec.ofNat _ x.toNat), vm.size, luaTBoolean, luaTBoolean⟩)
    return true
  else if t = luaTNumflt then
    let x ← loadNumber
    setK id i (← push .numbers ⟨.nnum x, vm.size, luaTNumflt, luaTNumflt⟩)
    return true
  else if t = luaTNumint then
    let x ← loadInteger
    setK id i (← push .numbers ⟨.nint x, vm.size, 1, t⟩)
    return true
  else if t = luaTString ∨ t = luaTLngstr then
    let (data, len) ← loadString
    setK id i (← push .strs ⟨.data data, len, 0, t⟩)
    return true
  else
    return false

/-- `LoadConstants`. -/
def loadConstants (id : Nat) : Load vm Unit := do
  let n ← loadInt
  setFunc id fun f => { f with sizek := n.toNat }
  if n = 0 then
    return
  setFunc id fun f => { f with k := slots n 4 }
  forWhile (loadConstant id) n.toInt.toNat 0

/-- `LoadUpvalues`. -/
def loadUpvalues (id : Nat) : Load vm Unit := do
  let n ← loadInt
  setFunc id fun f => { f with sizeupvalues := n.toNat }
  if n = 0 then
    return
  let us ← loadBlock (n.toNat * 2 % 2 ^ 32)
  setFunc id fun f => { f with upvalues := us }

/-- `f->p[i] = r`. -/
def setP (id i : Nat) (r : Nat) : Load vm Unit := fun s =>
  if i < 1024 then setFunc id (fun f => { f with p := Function.update f.p i (some r) }) s
  else .error .overrun

/-- `LoadProtos`, the function that reads a nested function being given. -/
def loadProtos (loadFunction : Nat → Load vm Nat) (id : Nat) : Load vm Unit := do
  let n ← loadInt
  setFunc id fun f => { f with sizep := n.toNat }
  forUpTo (fun i => do
    let s ← get
    setP id i (← loadFunction s.rpt.funcCount)) n.toInt.toNat 0

/-- The body of the loop of `LoadDebug` over the local variables. -/
def loadLocvar (id i : Nat) : Load vm Unit := do
  setSlot id (·.locvars2) (fun f l => { f with locvars2 := l }) i (← loadName)
  setSlot id (·.locvars) (fun f l => { f with locvars := l }) (i * 2) (← loadInt)
  setSlot id (·.locvars) (fun f l => { f with locvars := l }) (i * 2 + 1) (← loadInt)

/-- The body of the loop of `LoadDebug` over the names of the upvalues. -/
def loadUpvalueName (id i : Nat) : Load vm Unit := do
  setSlot id (·.upvalues2) (fun f l => { f with upvalues2 := l }) i (← loadName)

/-- The block with the `n` line numbers; without any the pointer stays `NULL`. -/
def loadLines (n : CInt) : Load vm (Option Block) := do
  if 0 < n.toInt then
    touch .lineNumbers
    return some (← loadBlock (n.toNat * 4 % 2 ^ 32))
  else
    return none

/-- The line information in `LoadDebug`. -/
def loadLineinfo (id : Nat) : Load vm Unit := do
  let n ← loadInt
  setFunc id fun f => { f with sizelineinfo := n.toNat }
  let data ← loadLines n
  let r ← push .lineNumbers ⟨.data data, n.toNat * 4 % 2 ^ 32, 0, 0⟩
  setFunc id fun f => { f with lineinfo := some r }

/-- The local variables in `LoadDebug`. -/
def loadLocvars (id : Nat) : Load vm Unit := do
  let n ← loadInt
  setFunc id fun f => { f with sizelocvars := n.toNat }
  if 0 < n.toInt then
    setFunc id fun f => { f with
      locvars2 := slots n 4
      locvars := List.replicate (n.toNat * 8 % 2 ^ 32 / 4) none }
  forUpTo (loadLocvar id) n.toInt.toNat 0

/-- The names of the upvalues in `LoadDebug`. -/
def loadUpvalueNames (id : Nat) : Load vm Unit := do
  let n ← loadInt
  setFunc id fun f => { f with sizeupvalues2 := n.toNat }
  if 0 < n.toInt then
    setFunc id fun f => { f with upvalues2 := slots n 4 }
  forUpTo (loadUpvalueName id) n.toInt.toNat 0

/-- `LoadDebug`. -/
def loadDebug (id : Nat) : Load vm Unit := do
  loadLineinfo id
  loadLocvars id
  loadUpvalueNames id

/-- The start of `LoadFunction`: everything before the constants. -/
def loadPrologue (id : Nat) : Load vm Unit := do
  modify fun s => { s with rpt.funcCount := s.rpt.funcCount + 1 }
  let r ← loadName
  setFunc id fun f => { f with source := some r }
  let x ← loadInt
  setFunc id fun f => { f with linedefined := x }
  let x ← loadInt
  setFunc id fun f => { f with lastlinedefined := x }
  let x ← loadByte
  setFunc id fun f => { f with numparams := x }
  let x ← loadByte
  setFunc id fun f => { f with isVararg := x }
  let x ← loadByte
  setFunc id fun f => { f with maxstacksize := x }
  let (buff, len) ← loadCode
  let r ← push .codes ⟨.data (some buff), len, 0, 0⟩
  setFunc id fun f => { f with code := some r, sizecode := len / 4 }

/-- `LoadFunction`.  The first argument bounds the nesting: below 1024 calls there
is no slot left in the table of functions. -/
def loadFunction : Nat → Nat → Load vm Nat
  | 0, _ => throw .overrun
  | depth + 1, id => do
    loadPrologue id
    loadConstants id
    loadUpvalues id
    loadProtos (loadFunction depth) id
    loadDebug id
    return id

/-- `ptr += n` without a read. -/
def skip (n : Nat) : Load vm Unit :=
  modify fun s => { s with ptr := s.ptr.drop n }

/-- `luadb_do_report_file`. -/
def luadbDoReportFile : Load vm Int := do
  if (← loadBlock 4) ≠ luaSignature then
    return -1
  skip 2
  if (← loadBlock 6) ≠ luacData then
    return -1
  skip 5
  if (← loadInteger) ≠ luacInt vm then
    return -1
  if (← loadNumber) ≠ luacNum vm then
    return -3
  skip 1
  let _ ← loadFunction 1024 0
  return 0

end LuatosPc.Luac
