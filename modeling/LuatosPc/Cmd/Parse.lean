import LuatosPc.Cmd.Files

/-!
# The command line

The model of `luat_cmd_parse`: the arguments are worked off one after the other, and
at the end the image is dumped if there is a path for it.

* `isOpts`, `parseArg`, `parseArgs` — the loop over the arguments.
* `dumpLuadb`, `luatCmdParse` — what follows it, and the whole function.
* `Globals.designated` — the image at `luadb_ptr`, which `luat_fs_init` mounts.
-/

namespace LuatosPc.Cmd

open LuatosPc.Bytes LuatosPc.Luadb

/-- How `luat_cmd_parse` ends. -/
inductive End
  | ret (r : Int)
  | exit (code : Int)
  deriving DecidableEq

/-- `is_opts`. -/
def isOpts (key : String) (arg : List UInt8) : Bool :=
  (ascii key).length < arg.length && arg.take (ascii key).length = ascii key

/-- What stands behind the key of an option. -/
def value (key : String) (arg : List UInt8) : List UInt8 := arg.drop (ascii key).length

variable (W : World)

/-- `memcpy` to the front of `luadb_dump_path`, without a terminator. -/
def copyDumpPath (path : List UInt8) : C Unit := do
  let σ ← get
  match store σ.luadbDumpPath 0 path with
  | none => throw .crash
  | some buf => modify fun σ => { σ with luadbDumpPath := buf }

/-- `luat_mock_init`. -/
def initMock (path : List UInt8) : C Int := do
  let σ ← get
  match Mock.luatMockInit σ.mock W.mockMade (cstr path) with
  | none => throw .crash
  | some (mock, ret) =>
    modify fun σ => { σ with mock }
    return ret

/-- `--luac_strip=`. -/
def setLuacStrip (arg : List UInt8) : C Unit :=
  modify fun σ =>
    if arg = ascii "--luac_strip=1" then { σ with cfgLuacStrip := 1 }
    else if arg = ascii "--luac_strip=0" then { σ with cfgLuacStrip := 0 }
    else if arg = ascii "--luac_strip=2" then { σ with cfgLuacStrip := 2 }
    else σ

/-- One argument: whether the loop goes on. -/
def parseArg (arg : List UInt8) : C Bool := do
  if isOpts "--load_luadb=" arg then
    return (← luatCmdLoadLuadb W (value "--load_luadb=" arg)) = 0
  else if isOpts "--ldb=" arg then
    return (← luatCmdLoadLuadb W (value "--ldb=" arg)) = 0
  else if isOpts "--load_luatools=" arg then
    return (← luatCmdLoadLuatools W (value "--load_luatools=" arg)) = 0
  else if isOpts "--llt=" arg then
    return (← luatCmdLoadLuatools W (value "--llt=" arg)) = 0
  else if isOpts "--mlua=" arg then
    return (← initMock W (value "--mlua=" arg)) = 0
  else if isOpts "--dump_luadb=" arg then
    copyDumpPath (value "--dump_luadb=" arg)
    return true
  else if isOpts "--luac_strip=" arg then
    setLuacStrip arg
    return true
  else if isOpts "--luac_report=" arg then
    modify fun σ => { σ with cfgDumpReport := σ.cfgDumpReport || arg = ascii "--luac_report=1" }
    return true
  else if isOpts "--norun=" arg then
    modify fun σ => { σ with cfgNorun := σ.cfgNorun || arg = ascii "--norun=1" }
    return true
  else if arg.head? = some 0x2D then
    return true
  else
    -- whether the file could be loaded makes no difference
    let _ ← checkFilePath W arg
    return true

/-- The loop over the arguments: whether it comes to the end. -/
def parseArgs : List CString → C Bool
  | [] => return true
  | arg :: args => do
    if ← parseArg W arg.bytes then parseArgs args else return false

/-- The `n` bytes from the start of a block on, with whatever stands behind it. -/
def readMem (b : Block) (n : Nat) : List UInt8 :=
  b.take n ++ (List.range (n - b.length)).map W.behind

/-- The bytes that `fwrite(luadb_ptr, 1, luadb_ctx.offset, f)` writes. -/
def fwriteLuadb (σ : Globals) : Option (List UInt8) :=
  match σ.luadbPtr with
  | .null => none
  | .loaded image => some (readMem W image σ.luadbCtx.offset)
  | .built => σ.luadbCtx.dataptr.map fun b => readMem W b σ.luadbCtx.offset

/-- The dump: whether the file can be opened. -/
def dumpLuadb : C Bool := do
  let σ ← get
  if σ.luadbDumpPath.getD 0 0 = 0 then return true
  else if 0 ∉ σ.luadbDumpPath then throw .crash
  else
    let path := (cstr σ.luadbDumpPath).bytes
    if W.writable path then
      match fwriteLuadb W σ with
      | none => throw .crash
      | some contents =>
        modify fun σ => { σ with dumped := some (path, contents) }
        return true
    else return false

/-- `luat_luadb2_init(&luadb_ctx)`. -/
def initLuadb : C Unit := do
  let heap ← malloc W
  let σ ← get
  match luatLuadb2Init σ.luadbCtx heap with
  | none => throw .crash
  | some (ctx, _) => modify fun σ => { σ with luadbCtx := ctx }

/-- What `luat_cmd_parse` does after the loop. -/
def finish : C End := do
  let σ ← get
  if σ.cfgDumpReport && !W.report σ.luadbCtx then throw .crash
  else if ← dumpLuadb W then
    return if σ.cfgNorun then .exit 0 else .ret 0
  else return .exit 1

/-- `luat_cmd_parse`, for the arguments behind the name of the program. -/
def luatCmdParse (args : List CString) : C End := do
  if args = [] then return .ret 0
  else
    initLuadb W
    if ← parseArgs W args then finish W else return .ret (-1)

/-- The variables before `luat_cmd_parse`. -/
def Globals.start : Globals where
  mock := .start
  luadbCtx := ⟨none, 0, 0⟩
  luadbPtr := .null
  luadbDumpPath := List.replicate 1024 0
  cfgLuacStrip := 0
  cfgDumpReport := false
  cfgNorun := false
  asked := 0
  dumped := none

/-- The image that `luat_fs_init` mounts, if there is one: all of a file that was
loaded, or what has been built. -/
def Globals.designated (σ : Globals) : Option (List UInt8) :=
  match σ.luadbPtr with
  | .null => none
  | .loaded image => some image
  | .built => σ.luadbCtx.dataptr.map fun b => b.take σ.luadbCtx.offset

/-! ## Options -/

theorem isOpts_iff {key : String} {arg : List UInt8} :
    isOpts key arg = true ↔ (ascii key).length < arg.length ∧ ascii key <+: arg := by
  rw [isOpts, Bool.and_eq_true, decide_eq_true_eq, decide_eq_true_eq, List.prefix_iff_eq_take,
    eq_comm]

/-- An option has a value. -/
theorem value_ne_nil {key : String} {arg : List UInt8} (h : isOpts key arg = true) :
    value key arg ≠ [] := by
  have hlen := (isOpts_iff.1 h).1
  rw [← List.length_pos_iff, value, List.length_drop]
  omega

end LuatosPc.Cmd
