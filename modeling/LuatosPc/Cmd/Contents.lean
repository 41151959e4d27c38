import LuatosPc.Base.Follow
import LuatosPc.Cmd.LuaTools
import LuatosPc.Cmd.Parse

/-!
# What the command line puts into the image

`luat_cmd_parse` works on blocks of memory, return codes and static variables.  What it is
for can be said without them: each argument names files, and the image holds these files
in their order.

* `Assembly` — the files of the image, where `luadb_ptr` points to, and how scripts are
  compiled from here on.
* `fileAt`, `pathsAt`, `projectPaths` — the file at a path, the files of a directory, and
  those of a project; `argument`, `arguments` — the plan for the arguments.
* `Shows` — the static variables show an assembly; `follows_argument` and those before it
  — the functions of the source do what the plan says; `parse_shows` — so does all of it.
* `image_holds_arguments` — after the command line has been worked off, the image reads
  back as exactly the files of the plan.
-/

namespace LuatosPc.Cmd

open LuatosPc.Bytes LuatosPc.Luadb

/-! ## The plan -/

/-- What the command line has brought about so far. -/
structure Assembly where
  files : List File
  ptr : LuadbPtr
  strip : Nat

/-- The image of the files. -/
def Assembly.image (s : Assembly) : List UInt8 := header s.files.length ++ s.files.flatMap record

/-- Nothing yet. -/
def Assembly.start : Assembly := ⟨[], .null, 0⟩

variable (W : World)

/-- The file that is added for a path: scripts are compiled.  There is none if the path
cannot be opened or the script cannot be compiled. -/
def fileAt (strip : Nat) (path : List UInt8) : Option File := do
  let data ← W.file path
  if path.drop (path.length - 4) = ascii ".lua" then
    match W.luac (tmpname path) data (strips strip (tmpname path)) with
    | .luac bytes => some (fileOf (tmpname path) bytes)
    | _ => none
  else some (fileOf (tmpname path) data)

/-- Add one file, if there is one. -/
def addFile (path : List UInt8) : StateM Assembly Bool := do
  match fileAt W (← get).strip path with
  | none => return false
  | some f =>
    modify fun s => { s with files := s.files ++ [f], ptr := .built }
    return true

/-- Add files up to the first one that there is not. -/
def addFiles : List (List UInt8) → StateM Assembly Bool
  | [] => return true
  | path :: paths => do
    if ← addFile W path then addFiles paths else return false

/-- The paths that an argument stands for: the regular files of a directory, or the
argument itself. -/
def pathsAt (path : List UInt8) : Option (List (List UInt8)) :=
  if path.getLast?.any isSep then
    (W.dir (if W.windows then path else path.dropLast)).map fun entries =>
      (entries.filter Prod.snd).map fun entry => path ++ [sep W] ++ entry.1.bytes
  else some [path]

/-- Add what an argument stands for.  It counts as found if there is an image then. -/
def addPath (path : List UInt8) : StateM Assembly Bool := do
  if path.length < 4 ∨ 512 ≤ path.length then return false
  else
    match pathsAt W path with
    | none => return false
    | some paths =>
      if ← addFiles W paths then return (← get).ptr ≠ .null else return false

/-- Add what several arguments stand for, up to the first one that is not found. -/
def addPaths : List (List UInt8) → StateM Assembly Bool
  | [] => return true
  | path :: paths => do
    if ← addPath W path then addPaths paths else return false

/-- The paths of a project. -/
def projectPaths (text : List UInt8) : List (List UInt8) :=
  (actions (sep W) [] (splitLines [] (text.takeWhile (· ≠ 0)))).filterMap LineAction.path?

/-- Add a project. -/
def addProject (path : List UInt8) : StateM Assembly Bool :=
  match W.file path with
  | none => return false
  | some text => addPaths W (projectPaths W text)

/-- Take an image as it is; what has been built is not lost but no longer pointed to. -/
def takeImage (path : List UInt8) : StateM Assembly Bool :=
  match W.file path with
  | none => return false
  | some image => do
    modify fun s => { s with ptr := .loaded image }
    return true

/-- The level of stripping after an option for it. -/
def stripAfter (strip : Nat) (arg : List UInt8) : Nat :=
  if arg = ascii "--luac_strip=1" then 1
  else if arg = ascii "--luac_strip=0" then 0
  else if arg = ascii "--luac_strip=2" then 2
  else strip

/-- What an argument does, and whether the next one is looked at. -/
def argument (arg : List UInt8) : StateM Assembly Bool := do
  if isOpts "--load_luadb=" arg then takeImage W (value "--load_luadb=" arg)
  else if isOpts "--ldb=" arg then takeImage W (value "--ldb=" arg)
  else if isOpts "--load_luatools=" arg then addProject W (value "--load_luatools=" arg)
  else if isOpts "--llt=" arg then addProject W (value "--llt=" arg)
  else if isOpts "--mlua=" arg then
    return W.mockMade
  else if isOpts "--dump_luadb=" arg then return true
  else if isOpts "--luac_strip=" arg then
    modify fun s => { s with strip := stripAfter s.strip arg }
    return true
  else if arg.head? = some 0x2D then return true
  else
    let _ ← addPath W arg
    return true

/-- What the arguments do, and whether all of them are looked at. -/
def arguments : List CString → StateM Assembly Bool
  | [] => return true
  | arg :: args => do
    if ← argument W arg.bytes then arguments args else return false

/-! ## The functions of the source follow it -/

/-- The static variables show the assembly. -/
structure Shows (σ : Globals) (s : Assembly) : Prop where
  holds : σ.luadbCtx.Holds s.files
  ptr : σ.luadbPtr = s.ptr
  strip : σ.cfgLuacStrip = s.strip

/-- The image in `luadb_ctx` is that of the files. -/
theorem holds_image {ctx : Ctx} {s : Assembly} (h : ctx.Holds s.files) :
    ctx.offset = s.image.length ∧
      ∀ image, ctx.dataptr.map (fun b => b.take ctx.offset) = some image → image = s.image := by
  obtain ⟨b, hptr, hoff, htake⟩ := h
  refine ⟨by rw [hoff, Assembly.image, List.length_append, length_header], fun image himage => ?_⟩
  rw [hptr, Option.map_some, htake] at himage
  exact (Option.some.inj himage).symm

/-- The return code 0 stands for success. -/
def Code (ret : Int) (ok : Bool) : Prop := ret = 0 ↔ ok = true

variable {W} (hheap : ∀ n, (W.heap n).isSome = true)

include hheap

theorem follows_malloc :
    Follows Shows (fun heap (_ : Unit) => heap.isSome = true) (malloc W) (pure ()) := by
  constructor
  intro σ s heap σ' hσ hy
  cases hy
  exact ⟨hheap _, hσ.holds, hσ.ptr, hσ.strip⟩

omit hheap in
/-- A write to an image for which there is memory reports no error. -/
theorem write_ret_eq_zero {ctx ctx' : Ctx} {fs : List File} {name : CString} {data : List UInt8}
    {heap : Heap} {ret : Int} (hctx : ctx.Holds fs) (hsome : heap.isSome = true)
    (hw : luatLuadb2Write ctx name data heap = some (ctx', ret)) : ret = 0 := by
  obtain ⟨b, hptr, -⟩ := hctx
  obtain ⟨junk, rfl⟩ := Option.isSome_iff_exists.1 hsome
  rw [luatLuadb2Write_eq hptr] at hw
  obtain ⟨tmp, -, hw⟩ := Option.bind_eq_some_iff.1 hw
  obtain ⟨tmp', -, hw⟩ := Option.bind_eq_some_iff.1 hw
  cases hw
  rfl

theorem follows_writeFile (name : CString) (data : List UInt8) :
    Follows Shows (fun ret _ => ret = 0) (writeFile W name data)
      (modify fun s => { s with files := s.files ++ [fileOf name data], ptr := .built }) := by
  constructor
  intro σ s ret σ' hσ hy
  obtain ⟨ctx, hw, rfl⟩ := (yields_writeFile_iff W).1 hy
  obtain rfl := write_ret_eq_zero hσ.holds (hheap _) hw
  exact ⟨rfl, hσ.holds.write hw, rfl, hσ.strip⟩

omit hheap in
theorem addFile_eq (path : List UInt8) (s : Assembly) :
    addFile W path s = match fileAt W s.strip path with
      | none => (false, s)
      | some f => (true, { s with files := s.files ++ [f], ptr := .built }) := by
  show (match fileAt W s.strip path with
    | none => return false
    | some f => do
      modify fun s => { s with files := s.files ++ [f], ptr := .built }
      return true : StateM Assembly Bool) s = _
  cases fileAt W s.strip path <;> rfl

theorem follows_addOnefile (path : List UInt8) :
    Follows Shows Code (addOnefile W path) (addFile W path) := by
  constructor
  intro σ s ret σ' hσ hy
  rw [addFile_eq, fileAt]
  unfold addOnefile at hy
  cases hfile : W.file path with
  | none =>
    rw [hfile] at hy
    cases hy
    exact ⟨by simp [Code], hσ⟩
  | some data =>
    simp only [hfile] at hy
    obtain ⟨heap, σ₁, hmalloc, hy⟩ := hy.of_bind
    obtain ⟨hsome, hσ₁⟩ := (follows_malloc hheap).related hσ hmalloc
    obtain ⟨junk, rfl⟩ := Option.isSome_iff_exists.1 hsome
    simp only [Option.bind_eq_bind, Option.bind_some]
    dsimp only at hy
    split at hy
    case isTrue hlua =>
      -- what `to_luac` does depends on the compiler
      have hstrip : σ₁.cfgLuacStrip = s.strip := hσ₁.strip
      replace hy := hy.of_get
      rw [hstrip] at hy
      rw [if_pos hlua]
      cases hluac : W.luac (tmpname path) data (strips s.strip (tmpname path)) with
      | raises =>
        simp only [hluac] at hy
        cases hy
        exact ⟨by simp [Code], hσ₁⟩
      | loadFails =>
        simp only [hluac] at hy
        cases hy
      | dumpFails =>
        simp only [hluac] at hy
        cases hy
        exact ⟨by simp [Code], hσ₁⟩
      | luac bytes =>
        simp only [hluac] at hy
        obtain ⟨_, σ₂, hwrite, hy⟩ := hy.of_bind
        cases hy
        exact ⟨by simp [Code], ((follows_writeFile hheap _ _).related hσ₁ hwrite).2⟩
    case isFalse hlua =>
      rw [if_neg hlua]
      obtain ⟨rfl, hσ'⟩ := (follows_writeFile hheap _ _).related hσ₁ hy
      exact ⟨by simp [Code], hσ'⟩

omit hheap in
/-- The answer of `check_file_path`, once the files have been added. -/
theorem follows_answer :
    Follows Shows (· = ·) (do return (← get).luadbPtr ≠ .null : C Bool)
      (do return (← get).ptr ≠ .null : StateM Assembly Bool) :=
  Follows.get.bind fun σ s hσ => Follows.pure (by rw [hσ.ptr])

theorem follows_addEntries (path : List UInt8) (entries : List (CString × Bool)) :
    Follows Shows (· = ·) (addEntries W path entries)
      (do
        if ← addFiles W ((entries.filter Prod.snd).map fun e => path ++ [sep W] ++ e.1.bytes) then
          return (← get).ptr ≠ .null
        else return false) := by
  induction entries with
  | nil => exact follows_answer
  | cons entry rest ih =>
    obtain ⟨name, regular⟩ := entry
    rw [addEntries]
    cases regular with
    | false => exact ih
    | true =>
      dsimp only
      rw [if_pos rfl]
      split
      · exact .throw _ _
      · simp only [List.filter_cons_of_pos, List.map_cons, addFiles, bind_assoc]
        refine (follows_addOnefile hheap _).bind fun ret ok hok => ?_
        cases ok with
        | false =>
          rw [if_pos (by simpa [Code] using hok)]
          exact .pure rfl
        | true =>
          rw [if_neg (by simpa [Code] using hok)]
          exact ih

theorem follows_checkFilePath (path : List UInt8) :
    Follows Shows (· = ·) (checkFilePath W path) (addPath W path) := by
  unfold checkFilePath addPath
  refine .ite Iff.rfl (.pure rfl) ?_
  unfold pathsAt
  by_cases hsep : path.getLast?.any isSep = true
  · rw [if_pos hsep, if_pos hsep]
    cases W.dir (if W.windows then path else path.dropLast) with
    | none => exact .pure rfl
    | some entries => exact follows_addEntries hheap path entries
  · rw [if_neg hsep, if_neg hsep]
    simp only [addFiles, bind_assoc]
    refine (follows_addOnefile hheap path).bind fun ret ok hok => ?_
    cases ok with
    | false =>
      rw [if_pos (by simpa [Code] using hok)]
      exact .pure rfl
    | true =>
      rw [if_neg (by simpa [Code] using hok)]
      exact follows_answer

theorem follows_runActions (as : List LineAction) :
    Follows Shows Code (runActions W as) (addPaths W (as.filterMap LineAction.path?)) := by
  induction as with
  | nil => exact .pure (by simp [Code])
  | cons a rest ih =>
    cases a with
    | skip => exact ih
    | enter => exact ih
    | overflow => exact .throw _ _
    | check path =>
      refine (follows_checkFilePath hheap path).bind fun found found' hfound => ?_
      obtain rfl := hfound
      cases found with
      | false => exact .pure (by simp [Code])
      | true => exact ih

omit hheap in
/-- The loop over a project stops at a NUL. -/
theorem lltLoop_takeWhile (dirline line text : List UInt8) :
    lltLoop W dirline line text = lltLoop W dirline line (text.takeWhile (· ≠ 0)) := by
  induction text generalizing dirline line with
  | nil => rfl
  | cons c rest ih =>
    by_cases hc : c = 0
    · simp [lltLoop, hc]
    · rw [List.takeWhile_cons_of_pos (by simpa using hc), lltLoop, lltLoop, if_neg hc, if_neg hc]
      simp only [← ih]

theorem follows_luatCmdLoadLuatools (path : List UInt8) :
    Follows Shows Code (luatCmdLoadLuatools W path) (addProject W path) := by
  unfold luatCmdLoadLuatools addProject
  cases W.file path with
  | none => exact .pure (by simp [Code])
  | some text =>
    refine (follows_malloc hheap).skip fun heap hsome => ?_
    obtain ⟨junk, rfl⟩ := Option.isSome_iff_exists.1 hsome
    have hnul : 0 ∉ text.takeWhile (· ≠ 0) := fun h0 => by simpa using List.mem_takeWhile_imp h0
    dsimp only
    rw [lltLoop_takeWhile, lltLoop_eq W hnul]
    exact follows_runActions hheap _

theorem follows_luatCmdLoadLuadb (path : List UInt8) :
    Follows Shows Code (luatCmdLoadLuadb W path) (takeImage W path) := by
  unfold luatCmdLoadLuadb takeImage
  cases W.file path with
  | none => exact .pure (by simp [Code])
  | some image =>
    refine (follows_malloc hheap).skip fun heap hsome => ?_
    obtain ⟨junk, rfl⟩ := Option.isSome_iff_exists.1 hsome
    refine Follows.bind (V := fun _ _ => True) (.modify fun σ s hσ => ?_) fun _ _ _ => ?_
    · exact ⟨hσ.holds, rfl, hσ.strip⟩
    · exact .pure (by simp [Code])

omit hheap in
/-- A change of variables that no assembly shows. -/
theorem follows_aside {m : C Unit} (hm : Within (fun σ σ' => σ'.luadbCtx = σ.luadbCtx ∧
    σ'.luadbPtr = σ.luadbPtr ∧ σ'.cfgLuacStrip = σ.cfgLuacStrip) m) :
    Follows Shows (· = ·) (do m; return true) (pure true) := by
  constructor
  intro σ s a σ' hσ hy
  obtain ⟨_, σ₁, hy₁, hy⟩ := hy.of_bind
  cases hy
  obtain ⟨hctx, hptr, hstrip⟩ := hm.related hy₁
  exact ⟨rfl, hctx ▸ hσ.holds, hptr.trans hσ.ptr, hstrip.trans hσ.strip⟩

omit hheap in
theorem within_copyDumpPath (path : List UInt8) :
    Within (fun σ σ' => σ'.luadbCtx = σ.luadbCtx ∧ σ'.luadbPtr = σ.luadbPtr ∧
      σ'.cfgLuacStrip = σ.cfgLuacStrip) (copyDumpPath path) := by
  constructor
  intro σ a σ' hy
  replace hy := hy.of_get
  cases hstore : store σ.luadbDumpPath 0 path with
  | none =>
    rw [hstore] at hy
    cases hy
  | some buf =>
    rw [hstore] at hy
    cases hy
    exact ⟨rfl, rfl, rfl⟩

omit hheap in
theorem follows_setLuacStrip (arg : List UInt8) :
    Follows Shows (fun _ _ => True) (setLuacStrip arg)
      (modify fun s => { s with strip := stripAfter s.strip arg }) := by
  refine .modify fun σ s hσ => ?_
  unfold stripAfter
  by_cases h1 : arg = ascii "--luac_strip=1"
  · simp only [h1, if_true]
    exact ⟨hσ.holds, hσ.ptr, rfl⟩
  by_cases h0 : arg = ascii "--luac_strip=0"
  · simp only [h0, if_true, if_neg (h0 ▸ h1)]
    exact ⟨hσ.holds, hσ.ptr, rfl⟩
  by_cases h2 : arg = ascii "--luac_strip=2"
  · simp only [h2, if_true, if_neg (h2 ▸ h1), if_neg (h2 ▸ h0)]
    exact ⟨hσ.holds, hσ.ptr, rfl⟩
  · simp only [if_neg h1, if_neg h0, if_neg h2]
    exact hσ

omit hheap in
theorem head?_of_isOpts {key : String} {arg : List UInt8} (h : isOpts key arg = true)
    (hkey : (ascii key).head? = some 0x2D) : arg.head? = some 0x2D := by
  obtain ⟨rest, rfl⟩ := (isOpts_iff.1 h).2
  rw [List.head?_append, hkey]
  rfl

omit hheap in
/-- A mock script is taken if there is a Lua state for it: its path is not empty. -/
theorem follows_initMock {path : List UInt8} (hpath : path ≠ []) (hnul : 0 ∉ path) :
    Follows Shows Code (initMock W path) (pure W.mockMade) := by
  constructor
  intro σ s ret σ' hσ hy
  replace hy := hy.of_get
  rw [cstr_of_nulFree hnul] at hy
  cases hinit : Mock.luatMockInit σ.mock W.mockMade ⟨path, hnul⟩ with
  | none =>
    rw [hinit] at hy
    cases hy
  | some r =>
    rw [hinit] at hy
    cases hy
    refine ⟨?_, hσ.holds, hσ.ptr, hσ.strip⟩
    have hret := Mock.luatMockInit_eq_zero_iff hinit
    rw [Code, hret]
    exact and_iff_left (by simpa [strlen] using hpath)

/-- **One argument.** -/
theorem follows_argument {arg : List UInt8} (harg : 0 ∉ arg) :
    Follows Shows (· = ·) (parseArg W arg) (argument W arg) := by
  have hret : ∀ {m : C Int} {p : StateM Assembly Bool}, Follows Shows Code m p →
      Follows Shows (· = ·) (do return (← m) = 0 : C Bool) p := by
    intro m p hm
    constructor
    intro σ s a σ' hσ hy
    obtain ⟨ret, σ₁, hy₁, hy⟩ := hy.of_bind
    cases hy
    obtain ⟨hcode, hσ₁⟩ := hm.related hσ hy₁
    exact ⟨Bool.eq_iff_iff.2 (by simpa [Code] using hcode), hσ₁⟩
  unfold parseArg argument
  refine .ite Iff.rfl (hret (follows_luatCmdLoadLuadb hheap _)) ?_
  refine .ite Iff.rfl (hret (follows_luatCmdLoadLuadb hheap _)) ?_
  refine .ite Iff.rfl (hret (follows_luatCmdLoadLuatools hheap _)) ?_
  refine .ite Iff.rfl (hret (follows_luatCmdLoadLuatools hheap _)) ?_
  by_cases hmock : isOpts "--mlua=" arg = true
  · rw [if_pos hmock, if_pos hmock]
    exact hret (follows_initMock (value_ne_nil hmock) fun h0 => harg (List.mem_of_mem_drop h0))
  rw [if_neg hmock, if_neg hmock]
  refine .ite Iff.rfl (follows_aside (within_copyDumpPath _)) ?_
  refine .ite Iff.rfl ((follows_setLuacStrip arg).bind fun _ _ _ => .pure rfl) ?_
  -- the remaining options only set flags; the plan passes over all arguments with a dash
  split
  case isTrue hopt =>
    rw [if_pos (head?_of_isOpts hopt (by decide))]
    exact follows_aside (.modify fun σ => ⟨rfl, rfl, rfl⟩)
  case isFalse =>
    split
    case isTrue hopt =>
      rw [if_pos (head?_of_isOpts hopt (by decide))]
      exact follows_aside (.modify fun σ => ⟨rfl, rfl, rfl⟩)
    case isFalse =>
      exact .ite Iff.rfl (.pure rfl)
        ((follows_checkFilePath hheap arg).bind fun _ _ _ => .pure rfl)

/-- **All arguments.** -/
theorem follows_arguments (args : List CString) :
    Follows Shows (· = ·) (parseArgs W args) (arguments W args) := by
  induction args with
  | nil => exact .pure rfl
  | cons arg args ih =>
    refine (follows_argument hheap arg.nulFree).bind fun ok ok' hok => ?_
    obtain rfl := hok
    exact .ite Iff.rfl ih (.pure rfl)

omit hheap in
/-- After the loop the image is left alone, and the return code is not -1. -/
theorem finish_frame {σ σ' : Globals} {e : End} (hy : Yields (finish W) σ e σ') :
    e ≠ .ret (-1) ∧ σ'.luadbCtx = σ.luadbCtx ∧ σ'.luadbPtr = σ.luadbPtr := by
  have hdump : Within (fun σ σ' : Globals => σ'.luadbCtx = σ.luadbCtx ∧
      σ'.luadbPtr = σ.luadbPtr) (dumpLuadb W) := by
    constructor
    intro σ a σ' hy
    replace hy := hy.of_get
    split at hy
    · cases hy
      exact ⟨rfl, rfl⟩
    split at hy
    · cases hy
    dsimp only at hy
    by_cases hopen : W.writable (cstr σ.luadbDumpPath).bytes = true
    · rw [if_pos hopen] at hy
      split at hy <;> cases hy
      exact ⟨rfl, rfl⟩
    · rw [if_neg hopen] at hy
      cases hy
      exact ⟨rfl, rfl⟩
  replace hy := hy.of_get
  split at hy
  · cases hy
  obtain ⟨opened, σ₁, hy₁, hy⟩ := hy.of_bind
  have hsame := hdump.related hy₁
  cases opened with
  | false =>
    cases hy
    exact ⟨nofun, hsame⟩
  | true =>
    cases hy
    refine ⟨?_, hsame⟩
    split <;> decide

theorem initLuadb_shows {σ : Globals} (hy : Yields (initLuadb W) .start () σ) :
    Shows σ .start := by
  obtain ⟨heap, σ₁, hmalloc, hy⟩ := hy.of_bind
  replace hy := hy.of_get
  cases hmalloc
  obtain ⟨junk, hjunk⟩ := Option.isSome_iff_exists.1 (hheap Globals.start.asked)
  have hnull : Globals.start.luadbCtx.dataptr = none := rfl
  obtain ⟨ctx, hinit, hholds⟩ := init_holds junk hnull
  simp only [hjunk, hinit] at hy
  cases hy
  exact ⟨hholds, rfl, rfl⟩

/-- If `luat_cmd_parse` comes back, it has done what the plan says. -/
theorem parse_shows {args : List CString} (hne : args ≠ []) {e : End} {σ : Globals}
    (h : Yields (luatCmdParse W args) .start e σ) :
    (e = .ret (-1) ↔ (arguments W args .start).1 = false) ∧
      σ.luadbPtr = (arguments W args .start).2.ptr ∧
      σ.luadbCtx.Holds (arguments W args .start).2.files := by
  rw [luatCmdParse, if_neg hne] at h
  obtain ⟨_, σ₁, hinit, h⟩ := h.of_bind
  obtain ⟨ok, σ₂, hargs, h⟩ := h.of_bind
  have hshows : Shows σ₁ .start := initLuadb_shows hheap hinit
  obtain ⟨hok, hσ₂⟩ := (follows_arguments hheap args).related hshows hargs
  cases ok with
  | false =>
    cases h
    exact ⟨by simp [← hok], hσ₂.ptr, hσ₂.holds⟩
  | true =>
    obtain ⟨hret, hctx, hp⟩ := finish_frame h
    exact ⟨by simp [← hok, hret], hp.trans hσ₂.ptr, hctx ▸ hσ₂.holds⟩

/-- **The image holds what the arguments name.**  If memory is never short and
`luat_cmd_parse` comes back, it has done what the plan says: it returns -1 exactly if the
plan breaks off, `luadb_ptr` points where the plan says, and the image in `luadb_ctx` is
the header and the records of the plan's files.  If these fit the format, the image reads
back as exactly them. -/
theorem image_holds_arguments {args : List CString} (hne : args ≠ []) {e : End} {σ : Globals}
    (h : Yields (luatCmdParse W args) .start e σ) :
    (e = .ret (-1) ↔ (arguments W args .start).1 = false) ∧
    σ.luadbPtr = (arguments W args .start).2.ptr ∧
    ∃ b, σ.luadbCtx.dataptr = some b ∧
      b.take σ.luadbCtx.offset = header (arguments W args .start).2.files.length ++
        (arguments W args .start).2.files.flatMap record ∧
      ((∀ f ∈ (arguments W args .start).2.files, f.Fits) →
        decodeRecords ((b.take σ.luadbCtx.offset).drop 24) =
          some (arguments W args .start).2.files) := by
  obtain ⟨hret, hp, b, hptr, -, htake⟩ := parse_shows hheap hne h
  refine ⟨hret, hp, b, hptr, htake, fun hfits => ?_⟩
  rw [htake, List.drop_left' (length_header _)]
  exact decodeRecords_flatMap hfits

omit hheap

/-- A directory with a script, a directory and another file; compiling a script keeps its
first byte if debug information is removed. -/
def sourceWorld : World where
  file path :=
    if path = ascii "src//main.lua" then some [1, 2]
    else if path = ascii "src//b.txt" then some [3]
    else none
  dir path :=
    if path = ascii "src" then
      some [(⟨ascii "main.lua", by decide⟩, true), (⟨ascii "sub", by decide⟩, false),
        (⟨ascii "b.txt", by decide⟩, true)]
    else none
  windows := false
  heap _ := some fun _ => 0
  luac _ data strip := .luac (if strip then data.take 1 else data)
  mockMade := true
  report _ := true
  writable _ := true
  behind _ := 0

/-- The directory is loaded twice, the second time with stripped scripts. -/
def loadTwice : List CString :=
  [⟨ascii "src/", by decide⟩, ⟨ascii "--luac_strip=2", by decide⟩, ⟨ascii "src/", by decide⟩]

theorem image_holds_loadTwice :
    ∃ σ b, Yields (luatCmdParse sourceWorld loadTwice) .start (.ret 0) σ ∧
      σ.luadbCtx.dataptr = some b ∧
      decodeRecords ((b.take σ.luadbCtx.offset).drop 24) =
        some [⟨ascii "main.lua", [1, 2]⟩, ⟨ascii "b.txt", [3]⟩, ⟨ascii "main.lua", [1]⟩,
          ⟨ascii "b.txt", [3]⟩] := by
  have hrun : (luatCmdParse sourceWorld loadTwice .start).toOption.map Prod.fst =
      some (.ret 0) := by decide +kernel
  have hfiles : (arguments sourceWorld loadTwice .start).2.files =
      [⟨ascii "main.lua", [1, 2]⟩, ⟨ascii "b.txt", [3]⟩, ⟨ascii "main.lua", [1]⟩,
        ⟨ascii "b.txt", [3]⟩] := by decide +kernel
  obtain ⟨e, σ, hy, he⟩ := exists_yields hrun
  obtain rfl : e = .ret 0 := he
  obtain ⟨-, -, b, hptr, -, hdecode⟩ :=
    image_holds_arguments (fun _ => rfl) (by simp [loadTwice]) hy
  refine ⟨σ, b, hy, hptr, ?_⟩
  rw [hdecode ?_, hfiles]
  rw [hfiles]
  decide

end LuatosPc.Cmd
