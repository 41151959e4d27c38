import LuatosPc.Luac.Dump
import LuatosPc.Cmd.Files

/-!
# Compiling a script

`to_luac` step by step: the protected function `pmain`, the writer that `luaU_dump` hands
chunks to, and the way of an error from there to the caller.

* `Outcome` — what Lua does with a script.
* `LuacCtx`, `writer`, `luaUDump` — the accumulator and the chunks; `LuacCtx.Holds` — what the
  accumulator has taken up.
* `pmain`, `toLuac` — the functions of the source.
* `Compiles` — what of all this `Cmd.toLuac` goes by; `toLuac_eq` — the two agree.
* `StatusAgrees` — the result tells whether a record was added to the image;
  `compile_status_iff` — when that is so: a script that does not load stops the process, and an
  error of `luat_luadb2_write` is not reported.
-/

namespace LuatosPc.Cmd.Compile

open LuatosPc.Bytes LuatosPc.Luadb
open LuatosPc.Mock hiding Ctx

variable {vm : Luac.Vm}

/-- What Lua does with a script. -/
inductive Outcome (vm : Luac.Vm)
  /-- An error inside of the protected call. -/
  | raises (e : LuaError vm.size)
  /-- `luaL_loadbufferx` fails and leaves a message. -/
  | loadFails (msg : Value vm.size)
  /-- It leaves a function, which `luaU_dump` cuts into these chunks, with or without debug
  information. -/
  | loads (f : Value vm.size) (chunks : Bool → List (List UInt8))

/-- Lua, for a name and a script; nothing if there is no memory for a Lua state, or for the
arguments of `pmain` in it. -/
abbrev Lua (vm : Luac.Vm) := CString → List UInt8 → Option (Outcome vm)

/-- The chunks that `luaU_dump` has for the writer. -/
def Outcome.chunks (strip : Bool) : Outcome vm → List (List UInt8)
  | loads _ chunks => chunks strip
  | _ => []

/-! ## The writer -/

/-- `luac_ctx_t`. -/
structure LuacCtx where
  ptr : Option Block
  len : Nat

/-- `writer`. -/
def writer (ctx : LuacCtx) (p : List UInt8) (heap : Heap) : Option (LuacCtx × Int) :=
  match ctx.ptr, heap with
  -- the answer is not checked, and `memcpy` goes to NULL
  | none, none => if p = [] then some (⟨none, 0⟩, 0) else none
  | none, some junk => do
    let ptr ← store (alloc p.length junk) 0 p
    return (⟨some ptr, p.length⟩, 0)
  | some _, none => some (ctx, 1)
  | some old, some junk => do
    let ptr ← store (realloc old (ctx.len + p.length) junk) ctx.len p
    return (⟨some ptr, ctx.len + p.length⟩, 0)

variable (W : World)

/-- `luaU_dump`: the chunks go to the writer until it reports an error. -/
def luaUDump : List (List UInt8) → LuacCtx → C (LuacCtx × Int)
  | [], ctx => return (ctx, 0)
  | p :: ps, ctx => do
    match writer ctx p (← malloc W) with
    | none => throw .crash
    | some (ctx, ret) => if ret = 0 then luaUDump ps ctx else return (ctx, ret)

/-! ## The protected function -/

/-- `pmain`, with its arguments on the stack: the number of results and the stack that they are
on top of, or an error. -/
def pmain (script : Outcome vm) (name : CString) (frame : Stack vm.size) :
    C (Except (LuaError vm.size) (Int × Stack vm.size)) := do
  match script with
  | .raises e => return .error e
  | .loadFails msg => return .ok (0, frame ++ [msg])
  | .loads f chunks =>
    match ← malloc W with
    -- the answer is not checked before `memset`
    | none => throw .crash
    | some _ =>
      let (ctx, ret) ← luaUDump W (chunks (strips (← get).cfgLuacStrip name)) ⟨none, 0⟩
      if ret = 0 then
        let _ ← writeFile W name ((ctx.ptr.getD []).take ctx.len)
      return .ok (1, frame ++ [f, .integer (BitVec.ofInt _ ret)])

/-- `luaL_checkinteger`, as far as it is used here: nothing for an error. -/
def luaLCheckinteger : Value vm.size → Option Int
  | .integer i => some i.toInt
  | _ => none

/-- What `to_luac` returns after `pmain`. -/
def finish (args : Stack vm.size)
    (outcome : Except (LuaError vm.size) (Int × Stack vm.size)) : C Int :=
  match Id.run (luaPcall (fun _ => pure outcome) (.object .function :: args) 2 1) with
  | (ret, L) =>
    if ret ≠ 0 then return -1
    else
      match luaLCheckinteger (L.getLast?.getD .nil) with
      -- not inside of a protected call
      | none => throw .crash
      | some ret => return ret

/-- `to_luac`. -/
def toLuac (lua : Lua vm) (name : CString) (data : List UInt8) : C Int := do
  match lua name data with
  | none => throw .crash
  | some script =>
    let args : Stack vm.size := [.string name.bytes, .string data]
    finish args (← pmain W script name args)

/-! ## What the accumulator takes up -/

/-- The accumulator holds these bytes. -/
structure LuacCtx.Holds (ctx : LuacCtx) (bytes : List UInt8) : Prop where
  ptr : ctx.ptr.getD [] = bytes
  len : ctx.len = bytes.length

/-- **One chunk**: it is added to the accumulator, or the writer reports an error. -/
theorem LuacCtx.Holds.writer {ctx ctx' : LuacCtx} {bytes p : List UInt8} {heap : Heap} {ret : Int}
    (h : ctx.Holds bytes) (hw : writer ctx p heap = some (ctx', ret)) :
    ret = 0 ∧ ctx'.Holds (bytes ++ p) ∨ ret = 1 := by
  obtain ⟨ptr, len⟩ := ctx
  obtain ⟨hptr, hlen⟩ := h
  cases ptr with
  | none =>
    obtain rfl : [] = bytes := hptr
    cases heap with
    | none =>
      simp only [Compile.writer] at hw
      split at hw
      · rename_i hp
        cases hw
        exact .inl ⟨rfl, hp.symm, by rw [hp]; rfl⟩
      · cases hw
    | some junk =>
      have hfits : 0 + p.length ≤ (alloc p.length junk).length := by simp
      simp only [Compile.writer, store_of_le hfits] at hw
      cases hw
      refine .inl ⟨rfl, ?_, rfl⟩
      simp [overwrite, alloc]
  | some old =>
    obtain rfl : old = bytes := hptr
    obtain rfl : len = old.length := hlen
    cases heap with
    | none =>
      cases hw
      exact .inr rfl
    | some junk =>
      have hfits : old.length + p.length ≤ (realloc old (old.length + p.length) junk).length := by
        simp
      simp only [Compile.writer, store_of_le hfits] at hw
      cases hw
      refine .inl ⟨rfl, ?_, by simp⟩
      show overwrite (realloc old (old.length + p.length) junk) old.length p = old ++ p
      rw [overwrite, take_realloc junk (by omega) le_rfl, List.take_length,
        List.drop_eq_nil_of_le (by simp), List.append_nil]

/-- **All chunks**: `luaU_dump` has handed over everything, or reports the error of the writer. -/
theorem luaUDump_spec {ps : List (List UInt8)} {ctx ctx' : LuacCtx} {bytes : List UInt8}
    {σ σ' : Globals} {ret : Int} (h : ctx.Holds bytes)
    (hd : Yields (luaUDump W ps ctx) σ (ctx', ret) σ') :
    (ret = 0 ∧ ctx'.Holds (bytes ++ ps.flatten) ∨ ret = 1) ∧ ∃ n, σ' = { σ with asked := n } := by
  induction ps generalizing ctx bytes σ with
  | nil =>
    cases hd
    exact ⟨.inl ⟨rfl, by simpa using h⟩, σ'.asked, rfl⟩
  | cons p ps ih =>
    obtain ⟨heap, σ₁, hm, hd⟩ := hd.of_bind
    cases hm
    cases hw : writer ctx p (W.heap σ.asked) with
    | none =>
      rw [hw] at hd
      cases hd
    | some r =>
      obtain ⟨ctx₁, ret₁⟩ := r
      rw [hw] at hd
      rcases h.writer hw with ⟨rfl, h₁⟩ | rfl
      · obtain ⟨hret, n, hn⟩ := ih h₁ hd
        refine ⟨?_, n, hn⟩
        rwa [List.append_assoc] at hret
      · cases hd
        exact ⟨.inr rfl, _, rfl⟩

/-! ## The way back to the caller -/

variable {W} {lua : Lua vm} {name : CString} {data : List UInt8} {σ : Globals}

/-- The stack that `pmain` finds. -/
abbrev arguments (vm : Luac.Vm) (name : CString) (data : List UInt8) : Stack vm.size :=
  [.string name.bytes, .string data]

variable (name data) in
/-- An error inside of the protected call is reported. -/
theorem finish_error (e : LuaError vm.size) :
    finish (arguments vm name data) (.error e) = pure (-1) := by
  have hpos : e.status ≠ 0 := e.status_pos.ne'
  simp [finish, luaPcall, hpos]

variable (name data) in
/-- Without a result, the caller finds nil on the stack. -/
theorem finish_no_result (frame : Stack vm.size) :
    finish (arguments vm name data) (.ok (0, frame)) = throw .crash := by
  simp [finish, luaPcall, results, luaLCheckinteger]

variable (name data) in
/-- The result of `pmain` is the result of `to_luac`. -/
theorem finish_result (f : Value vm.size) (frame : Stack vm.size) {ret : Int}
    (hret : ret = 0 ∨ ret = 1) :
    finish (arguments vm name data) (.ok (1, frame ++ [f, .integer (BitVec.ofInt _ ret)])) =
      pure ret := by
  have hint : (BitVec.ofInt (8 * vm.size) ret).toInt = ret := by
    rcases hret with rfl | rfl <;> cases vm <;> decide
  simp [finish, luaPcall, results, luaLCheckinteger, hint]

/-! ## What the caller goes by -/

/-- What becomes of the script, and how often memory was asked for until then. -/
inductive Compiles (W : World) (lua : Lua vm) (name : CString) (data : List UInt8) (σ : Globals) :
    Compiled → Nat → Prop
  | raises {e : LuaError vm.size} (hlua : lua name data = some (.raises e)) :
      Compiles W lua name data σ .raises σ.asked
  | loadFails {msg : Value vm.size} (hlua : lua name data = some (.loadFails msg)) :
      Compiles W lua name data σ .loadFails σ.asked
  | dumpFails {f : Value vm.size} {chunks : Bool → List (List UInt8)} {junk : Nat → UInt8}
      {ctx : LuacCtx} {n : Nat} (hlua : lua name data = some (.loads f chunks))
      (hheap : W.heap σ.asked = some junk)
      (hdump : Yields (luaUDump W (chunks (strips σ.cfgLuacStrip name)) ⟨none, 0⟩)
        { σ with asked := σ.asked + 1 } (ctx, 1) { σ with asked := n }) :
      Compiles W lua name data σ .dumpFails n
  | luac {f : Value vm.size} {chunks : Bool → List (List UInt8)} {junk : Nat → UInt8}
      {ctx : LuacCtx} {n : Nat} (hlua : lua name data = some (.loads f chunks))
      (hheap : W.heap σ.asked = some junk)
      (hdump : Yields (luaUDump W (chunks (strips σ.cfgLuacStrip name)) ⟨none, 0⟩)
        { σ with asked := σ.asked + 1 } (ctx, 0) { σ with asked := n }) :
      Compiles W lua name data σ (.luac (chunks (strips σ.cfgLuacStrip name)).flatten) n

/-- A world whose compiler does the one thing. -/
def compiling (W : World) (c : Compiled) : World := { W with luac := fun _ _ _ => c }

/-- The accumulator is empty at first. -/
theorem holds_nil : (⟨none, 0⟩ : LuacCtx).Holds [] := ⟨rfl, rfl⟩

theorem toLuac_of_some {script : Outcome vm} (hlua : lua name data = some script) :
    toLuac W lua name data =
      pmain W script name (arguments vm name data) >>= finish (arguments vm name data) := by
  rw [toLuac, hlua]

/-- A script that loads: what is left to do when the chunks are dumped. -/
theorem toLuac_of_loads {f : Value vm.size} {chunks : Bool → List (List UInt8)}
    {junk : Nat → UInt8} (hlua : lua name data = some (.loads f chunks))
    (hheap : W.heap σ.asked = some junk) {ctx : LuacCtx} {ret : Int} {n : Nat}
    (hdump : Yields (luaUDump W (chunks (strips σ.cfgLuacStrip name)) ⟨none, 0⟩)
      { σ with asked := σ.asked + 1 } (ctx, ret) { σ with asked := n }) :
    toLuac W lua name data σ =
      (do
        if ret = 0 then
          let _ ← writeFile W name (chunks (strips σ.cfgLuacStrip name)).flatten
        return ret : C Int) { σ with asked := n } := by
  rw [toLuac_of_some hlua, pmain, bind_assoc, (yields_malloc W hheap).bind_eq, bind_assoc,
    (Yields.get _).bind_eq, bind_assoc, hdump.bind_eq]
  rcases (luaUDump_spec W holds_nil hdump).1 with ⟨rfl, hctx⟩ | rfl
  · have hbytes : (ctx.ptr.getD []).take ctx.len =
        (chunks (strips σ.cfgLuacStrip name)).flatten := by
      rw [hctx.ptr, hctx.len, List.take_length, List.nil_append]
    have hfinish := finish_result name data f (arguments vm name data) (.inl rfl)
    simp only [if_pos, hbytes, bind_assoc, pure_bind, hfinish]
  · exact congrFun (finish_result name data f (arguments vm name data) (.inr rfl)) _

/-- **`to_luac` as the rest of the program sees it.** -/
theorem toLuac_eq {c : Compiled} {n : Nat} (h : Compiles W lua name data σ c n) :
    toLuac W lua name data σ =
      Cmd.toLuac (compiling W c) name data { σ with asked := n } := by
  cases h with
  | raises hlua =>
    rw [toLuac_of_some hlua]
    exact congrFun (finish_error name data _) σ
  | @loadFails msg hlua =>
    rw [toLuac_of_some hlua]
    exact congrFun (finish_no_result name data (arguments vm name data ++ [msg])) σ
  | dumpFails hlua hheap hdump => exact toLuac_of_loads hlua hheap hdump
  | luac hlua hheap hdump => exact toLuac_of_loads hlua hheap hdump

/-- A script for which `to_luac` returns has become something. -/
theorem compiles_of_yields {ret : Int} {σ' : Globals}
    (h : Yields (toLuac W lua name data) σ ret σ') : ∃ c n, Compiles W lua name data σ c n := by
  cases hlua : lua name data with
  | none =>
    rw [toLuac, hlua] at h
    cases h
  | some script =>
    cases script with
    | raises e => exact ⟨_, _, .raises hlua⟩
    | loadFails msg => exact ⟨_, _, .loadFails hlua⟩
    | loads f chunks =>
      rw [toLuac_of_some hlua] at h
      obtain ⟨_, _, hpmain, -⟩ := h.of_bind
      obtain ⟨_, _, hmalloc, hpmain⟩ := hpmain.of_bind
      cases hmalloc
      cases hheap : W.heap σ.asked with
      | none =>
        rw [hheap] at hpmain
        cases hpmain
      | some junk =>
        rw [hheap] at hpmain
        obtain ⟨⟨ctx, ret⟩, _, hdump, -⟩ := hpmain.of_get.of_bind
        obtain ⟨hret, n, rfl⟩ := luaUDump_spec W holds_nil hdump
        rcases hret with ⟨rfl, -⟩ | rfl
        · exact ⟨_, n, .luac hlua hheap hdump⟩
        · exact ⟨_, n, .dumpFails hlua hheap hdump⟩

/-! ## The result and the image -/

/-- One record was added to the image. -/
def Appended (ctx ctx' : Ctx) (f : File) : Prop :=
  ∃ fs, ctx.Holds fs ∧ ctx'.Holds (fs ++ [f])

/-- Adding a record makes the image longer. -/
theorem Appended.ne {ctx ctx' : Ctx} {f : File} (h : Appended ctx ctx' f) : ctx' ≠ ctx := by
  rintro rfl
  obtain ⟨fs, ⟨_, -, hoff, -⟩, ⟨_, -, hoff', -⟩⟩ := h
  rw [hoff, List.flatMap_append, List.length_append] at hoff'
  simp at hoff'

/-- **The result tells what happened**: `to_luac` returns, with 0 if and only if one record was
added, of the chunks that the writer was given, and otherwise with the image as it was. -/
def StatusAgrees (W : World) (lua : Lua vm) (name : CString) (data : List UInt8)
    (σ : Globals) : Prop :=
  ∃ ret σ', Yields (toLuac W lua name data) σ ret σ' ∧
    (ret = 0 ↔ ∃ script, lua name data = some script ∧ Appended σ.luadbCtx σ'.luadbCtx
      (fileOf name (script.chunks (strips σ.cfgLuacStrip name)).flatten)) ∧
    (ret ≠ 0 → σ'.luadbCtx = σ.luadbCtx)

/-- An error that is reported, with the image as it was. -/
theorem statusAgrees_of_error {ret : Int} {n : Nat} (hret : ret ≠ 0)
    (h : Yields (toLuac W lua name data) σ ret { σ with asked := n }) :
    StatusAgrees W lua name data σ := by
  refine ⟨ret, _, h, ?_, fun _ => rfl⟩
  refine iff_of_false hret ?_
  rintro ⟨_, -, happended⟩
  exact happended.ne rfl

/-- What `to_luac` does with the bytes of a script that is compiled: it returns 0 whatever
`luat_luadb2_write` returns. -/
theorem yields_luac_iff {bytes : List UInt8} {n : Nat}
    (hc : Compiles W lua name data σ (.luac bytes) n) {ret : Int} {σ' : Globals} :
    Yields (toLuac W lua name data) σ ret σ' ↔
      ret = 0 ∧ ∃ ctx r, luatLuadb2Write σ.luadbCtx name bytes (W.heap n) = some (ctx, r) ∧
        σ' = { σ with luadbCtx := ctx, luadbPtr := .built, asked := n + 1 } := by
  rw [Yields, toLuac_eq hc]
  constructor
  · intro h
    have hrun : Yields (writeFile W name bytes >>= fun _ => pure 0) { σ with asked := n } ret σ' := h
    obtain ⟨r, σ₁, hwrite, hret⟩ := hrun.of_bind
    cases hret
    obtain ⟨ctx, hw, rfl⟩ := (yields_writeFile_iff W).1 hwrite
    exact ⟨rfl, ctx, r, hw, rfl⟩
  · rintro ⟨rfl, ctx, r, hw, rfl⟩
    have hwrite : Yields (writeFile W name bytes) { σ with asked := n } r
        { σ with luadbCtx := ctx, luadbPtr := .built, asked := n + 1 } :=
      (yields_writeFile_iff W).2 ⟨ctx, hw, rfl⟩
    exact hwrite.bind_eq fun _ => pure 0

/-- A script that is compiled has been handed over in chunks. -/
theorem Compiles.chunks {bytes : List UInt8} {n : Nat}
    (hc : Compiles W lua name data σ (.luac bytes) n) :
    ∃ script, lua name data = some script ∧
      (script.chunks (strips σ.cfgLuacStrip name)).flatten = bytes := by
  cases hc with
  | luac hlua hheap hdump => exact ⟨_, hlua, rfl⟩

/-- **When the result tells what happened.**  The script has to load, or Lua to raise an error
inside of the protected call; and if it is compiled, `luat_luadb2_write` has to return 0. -/
theorem compile_status_iff (W : World) (lua : Lua vm) (name : CString) (data : List UInt8)
    (σ : Globals) (himage : σ.luadbCtx.dataptr ≠ none → σ.HasImage) :
    StatusAgrees W lua name data σ ↔
      ∃ c n, Compiles W lua name data σ c n ∧ c ≠ .loadFails ∧
        ∀ bytes, c = .luac bytes →
          ∃ ctx, luatLuadb2Write σ.luadbCtx name bytes (W.heap n) = some (ctx, 0) := by
  constructor
  · rintro ⟨ret, σ', hy, hzero, -⟩
    obtain ⟨c, n, hc⟩ := compiles_of_yields hy
    refine ⟨c, n, hc, ?_, ?_⟩
    · rintro rfl
      rw [Yields, toLuac_eq hc] at hy
      cases hy
    · rintro bytes rfl
      obtain ⟨rfl, ctx, r, hw, rfl⟩ := (yields_luac_iff hc).1 hy
      obtain ⟨_, -, happended⟩ := hzero.1 rfl
      -- an image that has grown is not the one that an error leaves
      obtain rfl : r = 0 := (write_ret_eq_zero_or hw).resolve_right happended.ne
      exact ⟨ctx, hw⟩
  · rintro ⟨c, n, hc, hload, hwrite⟩
    cases c with
    | raises => exact statusAgrees_of_error (by decide) (toLuac_eq hc)
    | loadFails => exact absurd rfl hload
    | dumpFails => exact statusAgrees_of_error (by decide) (toLuac_eq hc)
    | luac bytes =>
      obtain ⟨ctx, hw⟩ := hwrite bytes rfl
      obtain ⟨script, hlua, hbytes⟩ := hc.chunks
      refine ⟨0, _, (yields_luac_iff hc).2 ⟨rfl, ctx, 0, hw, rfl⟩, ?_, by simp⟩
      refine iff_of_true rfl ⟨script, hlua, ?_⟩
      obtain ⟨dataptr, _, hptr, -⟩ := write_ok_iff.1 hw
      obtain ⟨fs, hfs⟩ := himage (by simp [hptr])
      rw [hbytes]
      exact ⟨fs, hfs, hfs.write hw⟩

/-- A script that is dumped in two chunks. -/
def twoChunks : Lua .bit32 := fun _ _ => some (.loads .nil fun _ => [[0x1B, 0x4C], [0x75, 0x61]])

/-- A script with a syntax error. -/
def syntaxError : Lua .bit32 := fun _ _ => some (.loadFails .nil)

theorem emptyImage_hasImage : emptyImage.HasImage := ⟨[], header 0, rfl, rfl, rfl⟩

/-- Two chunks become one record. -/
theorem compile_status_iff_twoChunks :
    emptyImage.HasImage ∧
      StatusAgrees .bare twoChunks (cstr (ascii "a.lua")) [] emptyImage := by
  refine ⟨emptyImage_hasImage, (compile_status_iff _ _ _ _ _ fun _ => emptyImage_hasImage).2 ?_⟩
  refine ⟨_, 3, .luac rfl rfl rfl, by simp, ?_⟩
  rintro bytes -
  exact ⟨_, write_ok_iff.2 ⟨_, _, rfl, rfl, by decide, rfl⟩⟩

/-- **Two errors that the result does not tell.**  When a script does not load, the protected
call gives status 0 and nil, which stops the process; and when there is no memory for the
record, `luat_luadb2_write` returns -2 but `to_luac` returns 0. -/
theorem compile_status_disagrees :
    (Id.run (luaPcall (fun frame => pure (.ok (0, frame ++ [.nil])))
        (.object .function :: arguments .bit32 (cstr (ascii "a.lua")) []) 2 1) = (0, [.nil]) ∧
      toLuac .bare syntaxError (cstr (ascii "a.lua")) [] emptyImage = .error .crash) ∧
    ∃ heap : Nat → Heap,
      luatLuadb2Write emptyImage.luadbCtx (cstr (ascii "a.lua")) [0x1B, 0x4C, 0x75, 0x61] (heap 3) =
        some (emptyImage.luadbCtx, -2) ∧
      Yields (toLuac { World.bare with heap } twoChunks (cstr (ascii "a.lua")) []) emptyImage 0
        { emptyImage with luadbPtr := .built, asked := 4 } ∧
      ¬ StatusAgrees { World.bare with heap } twoChunks (cstr (ascii "a.lua")) [] emptyImage := by
  refine ⟨⟨rfl, rfl⟩, fun n => if n = 3 then none else some fun _ => 0, rfl, rfl, ?_⟩
  rintro ⟨ret, σ', hy, hzero, -⟩
  obtain ⟨rfl, rfl⟩ := hy.unique rfl
  obtain ⟨_, -, happended⟩ := hzero.1 rfl
  exact happended.ne rfl

end LuatosPc.Cmd.Compile
