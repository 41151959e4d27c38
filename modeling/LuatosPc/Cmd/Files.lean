import LuatosPc.Base.Program
import LuatosPc.Luadb.Image
import LuatosPc.Mock

/-!
# Loading scripts and images

The part of `luat_cmds.c` that fills `luadb_ctx` and sets `luadb_ptr`: single files,
directories, project files of LuaTools, and ready-made images.

* `World` — what the functions find: files, directories, the compiler, the heap.
* `Globals` — the static variables; `LuadbPtr` — where `luadb_ptr` points to.
* `luatCmdLoadLuadb`, `addOnefile`, `checkFilePath`, `luatCmdLoadLuatools` — the
  functions of the source, as programs that may crash.
* `Loads` — what all of them have in common: the image that is being built stays an
  image, and the dump path is not touched (`within_luatCmdLoadLuatools` and others).
-/

namespace LuatosPc.Cmd

open LuatosPc.Bytes LuatosPc.Luadb

/-- The process does not get any further: it is aborted, or uses memory that it does
not have. -/
inductive Stop
  | crash
  deriving DecidableEq

/-- What becomes of a script that `to_luac` compiles. -/
inductive Compiled
  /-- `lua_pcall` reports an error. -/
  | raises
  /-- The script does not load. -/
  | loadFails
  /-- The writer of `luaU_dump` runs out of memory. -/
  | dumpFails
  | luac (bytes : List UInt8)

/-- What the functions find. -/
structure World where
  /-- The contents of the files that can be opened. -/
  file : List UInt8 → Option (List UInt8)
  /-- The entries of the directories that can be opened, in the order of `readdir`,
  and whether they are regular files. -/
  dir : List UInt8 → Option (List (CString × Bool))
  /-- Whether `LUA_USE_WINDOWS` is defined. -/
  windows : Bool
  /-- The answers of the heap, one after the other. -/
  heap : Nat → Heap
  /-- The compiler, for a name, a script, and whether debug information is removed. -/
  luac : CString → List UInt8 → Bool → Compiled
  /-- Whether `lua_newstate` succeeds for `luat_mock_init`. -/
  mockMade : Bool
  /-- Whether `luadb_do_report` comes back. -/
  report : Ctx → Bool
  /-- Whether a file can be opened for writing. -/
  writable : List UInt8 → Bool
  /-- What stands in memory behind the block that `luadb_ptr` points to. -/
  behind : Nat → UInt8

/-- A world without files, in which memory is never short. -/
def World.bare : World where
  file _ := none
  dir _ := none
  windows := false
  heap _ := some fun _ => 0
  luac _ _ _ := .raises
  mockMade := true
  report _ := true
  writable _ := true
  behind _ := 0

/-- Where `luadb_ptr` points to: nowhere, to an image that was loaded, or to
`luadb_ctx.dataptr`, the image that is being built. -/
inductive LuadbPtr
  | null
  | loaded (image : Block)
  | built
  deriving DecidableEq

/-- The static variables, also those of `luat_mock.c`, how often memory was asked for, and the
file that was dumped. -/
structure Globals where
  mock : Mock.State 4
  luadbCtx : Ctx
  luadbPtr : LuadbPtr
  luadbDumpPath : Block
  cfgLuacStrip : Nat
  cfgDumpReport : Bool
  cfgNorun : Bool
  asked : Nat
  dumped : Option (List UInt8 × List UInt8)

/-- The variables with an image that has no files. -/
def emptyImage : Globals where
  mock := .start
  luadbCtx := ⟨some (header 0), 24, 24⟩
  luadbPtr := .null
  luadbDumpPath := List.replicate 1024 0
  cfgLuacStrip := 0
  cfgDumpReport := false
  cfgNorun := false
  asked := 0
  dumped := none

/-- A function of the source. -/
abbrev C (α : Type) := Prog Stop Globals α

variable (W : World)

/-- `luat_heap_malloc` and `luat_heap_realloc`. -/
def malloc : C Heap :=
  modifyGet fun σ => (W.heap σ.asked, { σ with asked := σ.asked + 1 })

/-- `luat_cmd_load_luadb`. -/
def luatCmdLoadLuadb (path : List UInt8) : C Int := do
  match W.file path with
  | none => return -1
  | some data =>
    match ← malloc W with
    | none => return -1
    | some _ =>
      modify fun σ => { σ with luadbPtr := .loaded data }
      return 0

/-- `luat_luadb2_write(&luadb_ctx, ..)` and the assignment to `luadb_ptr` behind it. -/
def writeFile (name : CString) (data : List UInt8) : C Int := do
  let heap ← malloc W
  let σ ← get
  match luatLuadb2Write σ.luadbCtx name data heap with
  | none => throw .crash
  | some (ctx, ret) =>
    modify fun σ => { σ with luadbCtx := ctx, luadbPtr := .built }
    return ret

/-- Whether `pmain` removes debug information from a script. -/
def strips (cfgLuacStrip : Nat) (name : CString) : Bool :=
  cfgLuacStrip ≠ 0 && !(cfgLuacStrip = 1 && name.bytes = ascii "main.lua")

/-- `to_luac` with `pmain`. -/
def toLuac (name : CString) (data : List UInt8) : C Int := do
  let σ ← get
  match W.luac name data (strips σ.cfgLuacStrip name) with
  | .raises => return -1
  -- `pmain` returns nothing, and `luaL_checkinteger` of that is not protected
  | .loadFails => throw .crash
  | .dumpFails => return 1
  | .luac bytes =>
    let _ ← writeFile W name bytes
    return 0

/-- The characters that end a directory in a path. -/
def isSep (c : UInt8) : Bool := c = 0x2F || c = 0x5C

/-- `tmpname`: what stands behind the last separator, or the whole path. -/
def tmpname (path : List UInt8) : CString :=
  let name := (path.reverse.takeWhile fun c => !isSep c).reverse
  cstr (if name = [] then path else name)

/-- `add_onefile`. -/
def addOnefile (path : List UInt8) : C Int := do
  match W.file path with
  | none => return -1
  | some data =>
    match ← malloc W with
    | none => return -2
    | some _ =>
      if path.drop (path.length - 4) = ascii ".lua" then
        toLuac W (tmpname path) data
      else
        writeFile W (tmpname path) data

/-- The separator that is put between a directory and a name. -/
def sep : UInt8 := if W.windows then 0x5C else 0x2F

/-- The loop of `check_file_path` over a directory: whether it returns a pointer. -/
def addEntries (path : List UInt8) : List (CString × Bool) → C Bool
  | [] => do return (← get).luadbPtr ≠ .null
  | (name, regular) :: rest => do
    if regular then
      let buff := path ++ [sep W] ++ name.bytes
      -- `sprintf` into a buffer of 512 bytes
      if 512 ≤ buff.length then throw .crash
      else if (← addOnefile W buff) ≠ 0 then return false
      else addEntries path rest
    else addEntries path rest

/-- `check_file_path`: whether it returns a pointer. -/
def checkFilePath (path : List UInt8) : C Bool := do
  if path.length < 4 ∨ 512 ≤ path.length then return false
  else if path.getLast?.any isSep then
    match W.dir (if W.windows then path else path.dropLast) with
    | none => return false
    | some entries => addEntries W path entries
  else if (← addOnefile W path) ≠ 0 then return false
  else return (← get).luadbPtr ≠ .null

/-- One line of a project file, for the directory of the last directory line: the
directory for the next line, or nothing if a file could not be loaded. -/
def lltLine (dirline line : List UInt8) : C (Option (List UInt8)) := do
  if line = ascii "[info]" ∨ line.length ≤ 5 then return some dirline
  else if line.head? = some 0x5B ∧ line.getLast? = some 0x5D then
    let dirline := (line.drop 1).take (line.length - 2)
    -- `dirline` has 512 bytes
    if 512 ≤ dirline.length then throw .crash else return some dirline
  else if dirline = [] then return some dirline
  else
    let name := line.takeWhile fun c => c ≠ 0x20 && c ≠ 0x3D
    if name.length = line.length then return some dirline
    else
      let rpath := dirline ++ [sep W] ++ name
      -- `rpath` has 1024 bytes
      if 1024 ≤ rpath.length then throw .crash
      else if ← checkFilePath W rpath then return some dirline
      else return none

/-- The loop of `luat_cmd_load_luatools`: the bytes of the line read so far, and those
that follow.  A line that is not ended is not looked at. -/
def lltLoop (dirline line : List UInt8) : List UInt8 → C Int
  | [] => return 0
  | c :: rest => do
    if c = 0 then return 0
    else if c = 0x0D ∨ c = 0x0A then
      if line = [] then lltLoop dirline [] rest
      else
        match ← lltLine W dirline line with
        | none => return -2
        | some dirline => lltLoop dirline [] rest
    else lltLoop dirline (line ++ [c]) rest

/-- `luat_cmd_load_luatools`. -/
def luatCmdLoadLuatools (path : List UInt8) : C Int := do
  match W.file path with
  | none => return -1
  | some data =>
    match ← malloc W with
    | none => return -1
    | some _ => lltLoop W [] [] data

/-! ## What loading leaves alone -/

/-- There is an image in `luadb_ctx`. -/
def Globals.HasImage (σ : Globals) : Prop := ∃ fs, σ.luadbCtx.Holds fs

/-- What loading does to the variables. -/
structure Loads (σ σ' : Globals) : Prop where
  luadbDumpPath : σ'.luadbDumpPath = σ.luadbDumpPath
  dumped : σ'.dumped = σ.dumped
  hasImage : σ.HasImage → σ'.HasImage

instance : Std.Refl Loads := ⟨fun _ => ⟨rfl, rfl, id⟩⟩

instance : IsTrans Globals Loads where
  trans _ _ _ h₁ h₂ := ⟨h₂.luadbDumpPath.trans h₁.luadbDumpPath, h₂.dumped.trans h₁.dumped,
    fun h => h₂.hasImage (h₁.hasImage h)⟩

theorem yields_malloc {σ : Globals} {heap : Heap} (h : W.heap σ.asked = heap) :
    Yields (malloc W) σ heap { σ with asked := σ.asked + 1 } := by
  rw [← h]
  rfl

theorem within_malloc : Within Loads (malloc W) := by
  apply Within.modifyGet
  intro σ
  exact ⟨rfl, rfl, id⟩

theorem within_luatCmdLoadLuadb (path : List UInt8) :
    Within Loads (luatCmdLoadLuadb W path) := by
  unfold luatCmdLoadLuadb
  split
  · exact .pure _
  · apply Within.bind (within_malloc W)
    intro heap
    split
    · exact .pure _
    · apply Within.bind
      · apply Within.modify
        intro σ
        exact ⟨rfl, rfl, id⟩
      · intro _
        exact .pure _

/-- What `luat_luadb2_write(&luadb_ctx, ..)` leaves. -/
theorem yields_writeFile_iff {name : CString} {data : List UInt8} {σ σ' : Globals} {ret : Int} :
    Yields (writeFile W name data) σ ret σ' ↔
      ∃ ctx, luatLuadb2Write σ.luadbCtx name data (W.heap σ.asked) = some (ctx, ret) ∧
        σ' = { σ with luadbCtx := ctx, luadbPtr := .built, asked := σ.asked + 1 } := by
  rw [Yields, writeFile, (yields_malloc W rfl).bind_eq, (Yields.get _).bind_eq]
  cases hw : luatLuadb2Write σ.luadbCtx name data (W.heap σ.asked) with
  | none =>
    constructor
    · intro h
      cases h
    · rintro ⟨ctx, h, -⟩
      cases h
  | some p =>
    obtain ⟨ctx, r⟩ := p
    constructor
    · intro h
      cases h
      exact ⟨ctx, rfl, rfl⟩
    · rintro ⟨ctx', h, rfl⟩
      cases h
      rfl

/-- Adding a file to an image gives an image. -/
theorem within_writeFile (name : CString) (data : List UInt8) :
    Within Loads (writeFile W name data) := by
  constructor
  intro σ ret σ' h
  obtain ⟨ctx, hw, rfl⟩ := (yields_writeFile_iff W).1 h
  refine ⟨rfl, rfl, ?_⟩
  rintro ⟨fs, hfs⟩
  rcases write_ret_eq_zero_or hw with rfl | rfl
  · exact ⟨_, hfs.write hw⟩
  · exact ⟨fs, hfs⟩

theorem within_toLuac (name : CString) (data : List UInt8) : Within Loads (toLuac W name data) := by
  unfold toLuac
  apply Within.bind .get
  intro σ
  split
  · exact .pure _
  · exact .throw _
  · exact .pure _
  · apply Within.bind (within_writeFile W _ _)
    intro _
    exact .pure _

theorem within_addOnefile (path : List UInt8) : Within Loads (addOnefile W path) := by
  unfold addOnefile
  split
  · exact .pure _
  · apply Within.bind (within_malloc W)
    intro heap
    split
    · exact .pure _
    · exact .ite (within_toLuac W _ _) (within_writeFile W _ _)

/-- The answer of `check_file_path` after the files were added. -/
theorem within_answer : Within Loads (do return (← get).luadbPtr ≠ .null : C Bool) := by
  apply Within.bind .get
  intro σ
  exact .pure _

theorem within_addEntries (path : List UInt8) (entries : List (CString × Bool)) :
    Within Loads (addEntries W path entries) := by
  induction entries with
  | nil => exact within_answer
  | cons entry rest ih =>
    obtain ⟨name, regular⟩ := entry
    rw [addEntries]
    refine .ite ?_ ih
    apply Within.ite (.throw _)
    apply Within.bind (within_addOnefile W _)
    intro ret
    exact .ite (.pure _) ih

theorem within_checkFilePath (path : List UInt8) : Within Loads (checkFilePath W path) := by
  unfold checkFilePath
  apply Within.ite (.pure _)
  apply Within.ite
  · split
    · exact .pure _
    · exact within_addEntries W _ _
  · apply Within.bind (within_addOnefile W _)
    intro ret
    exact .ite (.pure _) within_answer

theorem within_lltLine (dirline line : List UInt8) : Within Loads (lltLine W dirline line) := by
  unfold lltLine
  apply Within.ite (.pure _)
  apply Within.ite
  · exact .ite (.throw _) (.pure _)
  · apply Within.ite (.pure _)
    apply Within.ite (.pure _)
    apply Within.ite (.throw _)
    apply Within.bind (within_checkFilePath W _)
    intro found
    exact .ite (.pure _) (.pure _)

theorem within_lltLoop (dirline line data : List UInt8) :
    Within Loads (lltLoop W dirline line data) := by
  induction data generalizing dirline line with
  | nil => exact .pure _
  | cons c rest ih =>
    rw [lltLoop]
    apply Within.ite (.pure _)
    apply Within.ite
    · apply Within.ite (ih _ _)
      apply Within.bind (within_lltLine W _ _)
      intro next
      split
      · exact .pure _
      · exact ih _ _
    · exact ih _ _

theorem within_luatCmdLoadLuatools (path : List UInt8) :
    Within Loads (luatCmdLoadLuatools W path) := by
  unfold luatCmdLoadLuatools
  split
  · exact .pure _
  · apply Within.bind (within_malloc W)
    intro heap
    split
    · exact .pure _
    · exact within_lltLoop W _ _ _

end LuatosPc.Cmd
