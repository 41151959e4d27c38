import LuatosPc.Base.Decimal
import LuatosPc.Base.Machine
import LuatosPc.Mock.Path

/-!
# Mock calls

The model of `luat_mock.c`: drivers ask a Lua script for their answers.  The script
runs in a Lua state of its own, which is made once by `luat_mock_init` and then
used by every `luat_mock_call`.

* `Value`, `Stack`, `luaPcall` — Lua as far as the source uses it: a stack of
  values, bottom first, and the protected call; `Conv` — its conversions.
* `Script` — what the script does at one call; `loadMockLuaFile`, `mockMain` — the
  functions of the source that run inside of the protected call.
* `Ctx`, `Ctx.fill` — the context of a call, and how it is filled from two values.
* `luatMockInit`, `luatMockCall` — the functions of the source.
* `State`, `Act`, `step`, `machine` — any sequence of calls.
* `left` — what the calls since the last `luat_mock_init` have left on the stack,
  which is all that stands on it (`run_stack`).
* `mock_call_fills_own` — which calls stay inside of their buffers; and a call whose
  values come to stand at the bottom of the stack is answered with them.
-/

namespace LuatosPc.Mock

open LuatosPc.Bytes

/-! ## Lua -/

/-- The types of objects. -/
inductive ObjectType
  | lightuserdata | table | function | userdata | thread
  deriving DecidableEq, Repr

/-- The types of Lua, with their numbers. -/
inductive LuaType
  | nil | boolean | lightuserdata | number | string | table | function | userdata | thread
  deriving DecidableEq, Repr

/-- `LUA_TNIL` and so on. -/
def LuaType.code : LuaType → Int
  | nil => 0
  | boolean => 1
  | lightuserdata => 2
  | number => 3
  | string => 4
  | table => 5
  | function => 6
  | userdata => 7
  | thread => 8

/-- A Lua value, where `lua_Integer` and `lua_Number` both have `k` bytes.  Of an
object only its type matters here. -/
inductive Value (k : Nat)
  | nil
  | boolean (b : Bool)
  | integer (i : BitVec (8 * k))
  | number (bits : BitVec (8 * k))
  | string (s : List UInt8)
  | object (t : ObjectType)
  deriving DecidableEq, Repr

variable {k : Nat}

def ObjectType.type : ObjectType → LuaType
  | lightuserdata => .lightuserdata
  | table => .table
  | function => .function
  | userdata => .userdata
  | thread => .thread

/-- `lua_type` of a value. -/
def Value.type : Value k → LuaType
  | nil => .nil
  | boolean _ => .boolean
  | integer _ => .number
  | number _ => .number
  | string _ => .string
  | object t => t.type

/-- The conversions of Lua that depend on how it is built: `lua_tointeger`, and the text of a
number that is no integer. -/
structure Conv (k : Nat) where
  toInteger : Value k → BitVec (8 * k)
  numberText : BitVec (8 * k) → List UInt8

/-- The text of an integer. -/
def integerText (i : BitVec (8 * k)) : List UInt8 :=
  if i.toInt < 0 then ascii "-" ++ Decimal.decimal i.toInt.natAbs
  else Decimal.decimal i.toInt.natAbs

/-- What `lua_tostring` makes of a value where it stands: a number becomes its text. -/
def Value.toText (lua : Conv k) : Value k → Value k
  | integer i => .string (integerText i)
  | number bits => .string (lua.numberText bits)
  | v => v

/-- A stack, bottom first. -/
abbrev Stack (k : Nat) := List (Value k)

/-- What an error of Lua leaves: a status above `LUA_OK`, and a message. -/
structure LuaError (k : Nat) where
  status : Int
  msg : Value k
  status_pos : 0 < status

/-- The results of a function that says it returns the topmost `n` values of its
frame, cut or filled up to the number that is wanted. -/
def results (n : Int) (frame : Stack k) (wanted : Nat) : Stack k :=
  (frame.drop (frame.length - n.toNat) ++ List.replicate wanted Value.nil).take wanted

/-- `lua_pcall(L, nargs, nresults, 0)` of the C function `f`: the function and its
arguments are replaced by the results, or by a message. -/
def luaPcall {m : Type → Type} [Monad m] (f : Stack k → m (Except (LuaError k) (Int × Stack k)))
    (L : Stack k) (nargs nresults : Nat) : m (Int × Stack k) := do
  let base := L.take (L.length - (nargs + 1))
  match ← f (L.drop (L.length - nargs)) with
  | .error e => return (e.status, base ++ [e.msg])
  | .ok (n, frame) => return (0, base ++ results n frame nresults)

/-- `lua_tostring(L, -1)`. -/
def topToText (lua : Conv k) (L : Stack k) : Stack k :=
  L.dropLast ++ (L.getLast?.map (Value.toText lua)).toList

/-- A value at a positive index. -/
def index (L : Stack k) (i : Nat) : Value k := (L[i - 1]?).getD .nil

/-! ## The script -/

/-- What becomes of the mock file. -/
inductive Loading (k : Nat)
  | noFile
  | noMemory
  | syntaxError (msg : Value k)
  | runError (msg : Value k)
  /-- The script returns the mock function. -/
  | returns (mockf : Value k)

/-- What the script does at one call: how it loads, and what a call of the function
that it returns gives for two arguments. -/
structure Script (k : Nat) where
  loading : Loading k
  call : Value k → Value k → Value k → Except (LuaError k) (Value k × Value k)

/-- `load_mock_lua_file`: its result, what is left of the frame, and the global
`mockf`; nothing if a copy leaves its buffer. -/
def loadMockLuaFile (lua : Conv k) (path : PathBuffer) (script : Script k) (frame : Stack k) :
    Option (Int × Stack k × Value k) :=
  match script.loading with
  | .noFile => some (-3, frame, .nil)
  | .noMemory => some (-3, frame, .nil)
  | .syntaxError msg => do
    let _ ← copyName path.bytes
    return (-3, topToText lua (frame ++ [msg]), .nil)
  | .runError msg => do
    let _ ← copyName path.bytes
    return (-4, topToText lua (frame ++ [msg]), .nil)
  | .returns mockf => do
    let _ ← copyName path.bytes
    return (0, frame, mockf)

/-- `mock_main`, which returns an error code of `load_mock_lua_file` as its number of
results. -/
def mockMain (lua : Conv k) (path : PathBuffer) (script : Script k) (frame : Stack k) :
    Option (Except (LuaError k) (Int × Stack k)) := do
  let (ret, frame, mockf) ← loadMockLuaFile lua path script frame
  if ret ≠ 0 then return .ok (ret, frame)
  else
    match script.call mockf (index frame 1) (index frame 2) with
    | .error e => return .error e
    | .ok (code, value) => return .ok (2, frame ++ [code, value])

/-! ## A mock call -/

/-- `luat_mock_ctx_t`: the key, the first `req_len` bytes of `req_data`, and the
response, whose data is a block or `NULL`. -/
structure Ctx where
  key : List UInt8
  req : List UInt8
  respData : Option Block
  respLen : Nat
  respType : Int
  respCode : Int
  deriving DecidableEq, Repr

/-- How `luat_mock_call` fills its context from two values, where `toInteger` is
`lua_tointeger`. -/
def Ctx.fill (toInteger : Value k → BitVec (8 * k)) (ctx : Ctx) (code value : Value k) : Ctx :=
  let ctx := { ctx with
    respCode := (toInteger code).toInt.bmod (2 ^ 32)
    respType := value.type.code }
  match value with
  | .nil => ctx
  | .boolean b => { ctx with respData := some [if b then 1 else 0], respLen := 1 }
  | .integer i => { ctx with respData := some (leBytes k i.toNat), respLen := k }
  | .number bits => { ctx with respData := some (leBytes k bits.toNat), respLen := k }
  | .string s =>
    if 0 < s.length then { ctx with respData := some (s ++ [0]), respLen := s.length }
    else { ctx with respLen := 0 }
  | .object _ => ctx

/-- The static variables: `mock_L`, with its stack, and `mock_file_path`. -/
structure State (k : Nat) where
  mockL : Option (Stack k)
  mockFilePath : PathBuffer

def State.start : State k := ⟨none, .zeros⟩

/-- `luat_mock_init`, where `made` tells whether `lua_newstate` succeeds.  Every
library that is opened is popped again. -/
def luatMockInit (σ : State k) (made : Bool) (path : CString) : Option (State k × Int) := do
  let buf ← σ.mockFilePath.copy path
  return (⟨if made then some [] else none, buf⟩, if made = false ∨ strlen buf.path = 0 then -1 else 0)

/-- `luat_mock_call`.  Nothing is popped. -/
def luatMockCall (lua : Conv k) (σ : State k) (ctx : Ctx) (script : Script k) :
    Option (State k × Int × Ctx) :=
  match σ.mockL with
  | none => some (σ, -0xFF, ctx)
  | some L =>
    if strlen σ.mockFilePath.path = 0 then some (σ, -2, ctx)
    else do
      let L := L ++ [.object .function] ++ [.string ctx.key] ++ [.string ctx.req]
      let (ret, L) ← luaPcall (mockMain lua σ.mockFilePath script) L 2 2
      if ret ≠ 0 then return ({ σ with mockL := some (topToText lua L) }, ret, ctx)
      else return ({ σ with mockL := some L }, ret, ctx.fill lua.toInteger (index L 1) (index L 2))

/-- One action. -/
inductive Act (k : Nat)
  | init (made : Bool) (path : CString)
  | call (ctx : Ctx) (script : Script k)

/-- What an action gives: the result, and the context of a call. -/
inductive Answer
  | init (ret : Int)
  | call (ret : Int) (ctx : Ctx)
  deriving DecidableEq, Repr

/-- One step; there is none if memory outside of a buffer is used. -/
def step (lua : Conv k) (σ : State k) : Act k → Option (State k × Answer)
  | .init made path => (luatMockInit σ made path).map fun r => (r.1, .init r.2)
  | .call ctx script => (luatMockCall lua σ ctx script).map fun r => (r.1, .call r.2.1 r.2.2)

/-- Any sequence of calls. -/
def machine (lua : Conv k) : Machine (State k) (Act k) Answer := ⟨.start, step lua⟩

/-- A transition. -/
abbrev Trans (k : Nat) := Transition (State k) (Act k) Answer

/-! ## What a call is answered with -/

/-- The two values that the mock function returns at a call, if it is run and
returns. -/
def Script.returned (script : Script k) (ctx : Ctx) : Option (Value k × Value k) :=
  match script.loading with
  | .returns mockf =>
    match script.call mockf (.string ctx.key) (.string ctx.req) with
    | .ok values => some values
    | .error _ => none
  | _ => none

/-- What a call leaves on the stack: the results of the protected call, or its message, as a
text if it is a number. -/
def Script.leaves (lua : Conv k) (script : Script k) (ctx : Ctx) : Stack k :=
  match script.loading with
  | .returns mockf =>
    match script.call mockf (.string ctx.key) (.string ctx.req) with
    | .ok (code, value) => [code, value]
    | .error e => [e.msg.toText lua]
  | _ => [.nil, .nil]

/-- What a transition makes of the stack.  A call that does not reach Lua returns a
negative number. -/
def leftBy (lua : Conv k) (L : Stack k) (e : Trans k) : Stack k :=
  match e.act, e.out with
  | .call ctx script, .call ret _ => if ret < 0 then L else L ++ script.leaves lua ctx
  | _, _ => []

/-- What the calls since the last `luat_mock_init` have left on the stack. -/
def left (lua : Conv k) (tr : List (Trans k)) : Stack k := tr.foldl (leftBy lua) []

/-! ## One call -/

theorem index_one_eq {L : Stack k} {a b : Value k} (h : L.take 2 = [a, b]) : index L 1 = a := by
  match L, h with
  | _ :: _ :: _, h =>
    cases h
    rfl

theorem index_two_eq {L : Stack k} {a b : Value k} (h : L.take 2 = [a, b]) : index L 2 = b := by
  match L, h with
  | _ :: _ :: _, h =>
    cases h
    rfl

theorem luaPcall_append (f : Stack k → Option (Except (LuaError k) (Int × Stack k)))
    (L args : Stack k) (fn : Value k) (wanted : Nat) :
    luaPcall f (L ++ fn :: args) args.length wanted =
      match f args with
      | none => none
      | some (.error e) => some (e.status, L ++ [e.msg])
      | some (.ok (n, frame)) => some (0, L ++ results n frame wanted) := by
  have hbase : (L ++ fn :: args).length - (args.length + 1) = L.length := by
    rw [List.length_append, List.length_cons]
    omega
  have hargs : (L ++ fn :: args).length - args.length = L.length + 1 := by
    rw [List.length_append, List.length_cons]
    omega
  have hdrop : (L ++ fn :: args).drop (L.length + 1) = args := by
    rw [← List.drop_drop, List.drop_left, List.drop_one, List.tail_cons]
  rw [luaPcall, hbase, hargs, hdrop, List.take_left]
  cases f args with
  | none => rfl
  | some r => cases r <;> rfl

theorem topToText_concat (lua : Conv k) (L : Stack k) (v : Value k) :
    topToText lua (L ++ [v]) = L ++ [v.toText lua] := by
  rw [topToText, List.dropLast_concat, List.getLast?_concat]
  rfl

/-- A count that is not positive stands for no results. -/
theorem results_of_nonpos {n : Int} (hn : n ≤ 0) (frame : Stack k) (wanted : Nat) :
    results n frame wanted = List.replicate wanted .nil := by
  have : n.toNat = 0 := by omega
  rw [results, this, Nat.sub_zero, List.drop_length, List.nil_append,
    List.take_of_length_le (by simp)]

theorem results_two (frame : Stack k) (a b : Value k) :
    results 2 (frame ++ [a, b]) 2 = [a, b] := by
  have hlen : (frame ++ [a, b]).length - Int.toNat 2 = frame.length := by simp
  rw [results, hlen, List.drop_left]
  rfl

/-- The script is read, so that its name is copied. -/
def Script.opened (script : Script k) : Bool :=
  match script.loading with
  | .noFile | .noMemory => false
  | .syntaxError _ | .runError _ | .returns _ => true

/-- **What `load_mock_lua_file` does**: it gives a mock function, or a negative code. -/
theorem loadMockLuaFile_cases (lua : Conv k) (path : PathBuffer) (script : Script k)
    (frame : Stack k) :
    (loadMockLuaFile lua path script frame = none ∧ script.opened = true ∧ ¬ NameFits path.path) ∨
    (∃ mockf, script.loading = .returns mockf ∧ NameFits path.path ∧
      loadMockLuaFile lua path script frame = some (0, frame, mockf)) ∨
    (∃ n frame' v, n < 0 ∧ (∀ mockf, script.loading ≠ .returns mockf) ∧
      (script.opened = true → NameFits path.path) ∧
      loadMockLuaFile lua path script frame = some (n, frame', v)) := by
  have hiff := copyName_isSome_iff path
  unfold loadMockLuaFile Script.opened
  cases hcopy : copyName path.bytes with
  | none =>
    rw [hcopy] at hiff
    have hnot : ¬ NameFits path.path := fun h => by cases hiff.2 h
    cases script.loading with
    | noFile | noMemory => exact .inr (.inr ⟨-3, frame, .nil, by decide, nofun, nofun, rfl⟩)
    | syntaxError | runError | returns => exact .inl ⟨rfl, rfl, hnot⟩
  | some tmpname =>
    rw [hcopy] at hiff
    have hfits : NameFits path.path := hiff.1 rfl
    cases script.loading with
    | noFile | noMemory => exact .inr (.inr ⟨-3, frame, .nil, by decide, nofun, nofun, rfl⟩)
    | syntaxError | runError =>
      exact .inr (.inr ⟨_, _, _, by decide, nofun, fun _ => hfits, rfl⟩)
    | returns mockf => exact .inr (.inl ⟨mockf, rfl, hfits, rfl⟩)

/-- **What `mock_main` does**: it uses memory outside of a buffer, or it raises an error, or it
has two results, which are those of the mock function if the script could be loaded. -/
theorem mockMain_cases (lua : Conv k) (path : PathBuffer) (script : Script k) (ctx : Ctx) :
    (mockMain lua path script [.string ctx.key, .string ctx.req] = none ∧
      script.opened = true ∧ ¬ NameFits path.path) ∨
    (script.opened = true → NameFits path.path) ∧
    ((∃ e, mockMain lua path script [.string ctx.key, .string ctx.req] = some (.error e) ∧
      script.leaves lua ctx = [e.msg.toText lua]) ∨
    ∃ n frame code value,
      mockMain lua path script [.string ctx.key, .string ctx.req] = some (.ok (n, frame)) ∧
      results n frame 2 = [code, value] ∧ script.leaves lua ctx = [code, value] ∧
      ∀ mockf, script.loading = .returns mockf → script.returned ctx = some (code, value)) := by
  unfold mockMain
  rcases loadMockLuaFile_cases lua path script [.string ctx.key, .string ctx.req] with
    ⟨hnone, hopened, hnot⟩ | ⟨mockf, hloading, hfits, hload⟩ | ⟨n, frame, v, hneg, hno, hfits, hload⟩
  · rw [hnone]
    exact .inl ⟨rfl, hopened, hnot⟩
  · refine .inr ⟨fun _ => hfits, ?_⟩
    unfold Script.leaves Script.returned
    rw [hload, hloading]
    simp only [Option.bind_eq_bind, Option.bind_some, ne_eq, not_true_eq_false, if_false, index,
      Nat.sub_self, List.getElem?_cons_zero, Option.getD_some, List.getElem?_cons_succ,
      Nat.add_one_sub_one]
    cases script.call mockf (.string ctx.key) (.string ctx.req) with
    | error e => exact .inl ⟨e, rfl, rfl⟩
    | ok values =>
      obtain ⟨code, value⟩ := values
      exact .inr ⟨_, _, code, value, rfl, results_two _ _ _, rfl, fun _ _ => rfl⟩
  · -- the code of the failure is taken for a number of results
    have hleaves : script.leaves lua ctx = [.nil, .nil] := by
      unfold Script.leaves
      cases hloading : script.loading with
      | returns mockf => exact absurd hloading (hno mockf)
      | noFile | noMemory | syntaxError | runError => rfl
    rw [hload]
    refine .inr ⟨hfits, .inr ⟨n, frame, .nil, .nil, if_pos hneg.ne, ?_, hleaves, ?_⟩⟩
    · exact results_of_nonpos hneg.le _ _
    · intro mockf hreturns
      exact absurd hreturns (hno mockf)

/-- `luat_mock_init` succeeds if there is a Lua state and a path. -/
theorem luatMockInit_eq_zero_iff {σ : State k} {made : Bool} {path : CString} {r : State k × Int}
    (h : luatMockInit σ made path = some r) : r.2 = 0 ↔ made = true ∧ strlen path ≠ 0 := by
  obtain ⟨buf, hcopy, hr⟩ := Option.bind_eq_some_iff.1 h
  obtain rfl := Option.some.inj hr
  rw [PathBuffer.path_of_copy hcopy]
  cases made <;> by_cases hpath : strlen path = 0 <;> simp [hpath]

section

variable (lua : Conv k) {σ : State k} {L : Stack k}

/-- A call that reaches Lua, in terms of `mock_main`. -/
theorem luatMockCall_eq (hL : σ.mockL = some L) (hpath : strlen σ.mockFilePath.path ≠ 0) (ctx : Ctx)
    (script : Script k) :
    luatMockCall lua σ ctx script =
      match mockMain lua σ.mockFilePath script [.string ctx.key, .string ctx.req] with
      | none => none
      | some (.error e) =>
        some ({ σ with mockL := some (L ++ [e.msg.toText lua]) }, e.status, ctx)
      | some (.ok (n, frame)) =>
        some ({ σ with mockL := some (L ++ results n frame 2) }, 0,
          ctx.fill lua.toInteger (index (L ++ results n frame 2) 1)
            (index (L ++ results n frame 2) 2)) := by
  have hpcall := luaPcall_append (mockMain lua σ.mockFilePath script) L
    [.string ctx.key, .string ctx.req] (.object .function) 2
  have hstack : L ++ [Value.object .function] ++ [Value.string ctx.key] ++ [Value.string ctx.req] =
      L ++ [Value.object .function, Value.string ctx.key, Value.string ctx.req] := by simp
  simp only [List.length_cons, List.length_nil, Nat.zero_add, Nat.reduceAdd] at hpcall
  rw [luatMockCall, hL]
  simp only [hpath, if_false, hstack, hpcall]
  cases mockMain lua σ.mockFilePath script [.string ctx.key, .string ctx.req] with
  | none => rfl
  | some r =>
    cases r with
    | error e =>
      simp only [Option.bind_eq_bind, Option.bind_some, topToText_concat]
      exact if_pos e.status_pos.ne'
    | ok r => rfl

/-- **One call** in a Lua state with a script: it leaves its own values on top of the
stack, and what it reads stands at the bottom. -/
theorem luatMockCall_spec (hL : σ.mockL = some L) (hpath : strlen σ.mockFilePath.path ≠ 0)
    (ctx : Ctx) (script : Script k) :
    (luatMockCall lua σ ctx script = none ∧ script.opened = true ∧
      ¬ NameFits σ.mockFilePath.path) ∨
    (script.opened = true → NameFits σ.mockFilePath.path) ∧
    ∃ ret ctx', luatMockCall lua σ ctx script =
        some ({ σ with mockL := some (L ++ script.leaves lua ctx) }, ret, ctx') ∧ 0 ≤ ret ∧
      (ret = 0 → ∃ code value, script.leaves lua ctx = [code, value] ∧
        (∀ mockf, script.loading = .returns mockf → script.returned ctx = some (code, value)) ∧
        ctx' = ctx.fill lua.toInteger (index (L ++ [code, value]) 1)
          (index (L ++ [code, value]) 2)) := by
  rw [luatMockCall_eq lua hL hpath]
  rcases mockMain_cases lua σ.mockFilePath script ctx with ⟨hmain, hnot⟩ | ⟨hfits, hmain⟩
  · rw [hmain]
    exact .inl ⟨rfl, hnot⟩
  refine .inr ⟨hfits, ?_⟩
  rcases hmain with ⟨e, hmain, hleaves⟩ | ⟨n, frame, code, value, hmain, hresults, hleaves, hreturned⟩
  · rw [hmain, hleaves]
    exact ⟨e.status, ctx, rfl, e.status_pos.le, fun h => absurd h e.status_pos.ne'⟩
  · rw [hmain, hleaves]
    dsimp only
    rw [hresults]
    exact ⟨0, _, rfl, le_rfl, fun _ => ⟨code, value, rfl, hreturned, rfl⟩⟩

end

/-! ## Any sequence of calls -/

/-- What an action copies fits the buffers: the path that is set, and the name of a script that
is read. -/
def Act.Fits (σ : State k) : Act k → Prop
  | .init _ path => strlen path < 1024
  | .call _ script => σ.mockL ≠ none → strlen σ.mockFilePath.path ≠ 0 → script.opened = true →
      NameFits σ.mockFilePath.path

theorem left_concat (lua : Conv k) (tr : List (Trans k)) (e : Trans k) :
    left lua (tr ++ [e]) = leftBy lua (left lua tr) e := by
  simp [left]

section

variable {lua : Conv k} {tr : List (Trans k)} {σ : State k}

/-- A call that does not reach Lua. -/
theorem luatMockCall_unreached (h : σ.mockL = none ∨ strlen σ.mockFilePath.path = 0) (ctx : Ctx)
    (script : Script k) :
    ∃ ret, ret < 0 ∧ luatMockCall lua σ ctx script = some (σ, ret, ctx) := by
  unfold luatMockCall
  cases hL : σ.mockL with
  | none => exact ⟨-0xFF, by decide, rfl⟩
  | some L =>
    have hpath := h.resolve_left (by rw [hL]; simp)
    exact ⟨-2, by decide, if_pos hpath⟩

theorem reached_of_not (h : ¬ (σ.mockL = none ∨ strlen σ.mockFilePath.path = 0)) :
    ∃ L, σ.mockL = some L ∧ strlen σ.mockFilePath.path ≠ 0 := by
  obtain ⟨hL, hpath⟩ := not_or.1 h
  obtain ⟨L, hL⟩ := Option.ne_none_iff_exists'.1 hL
  exact ⟨L, hL, hpath⟩

/-- **Which actions stay inside of the buffers.** -/
theorem step_isSome_iff (a : Act k) : (step lua σ a).isSome = true ↔ a.Fits σ := by
  cases a with
  | init made path =>
    have hlen : 0 + (path.bytes ++ [0]).length ≤ σ.mockFilePath.bytes.length ↔
        strlen path < 1024 := by
      rw [σ.mockFilePath.length_eq, List.length_append, List.length_singleton, strlen]
      omega
    show ((luatMockInit σ made path).map _).isSome = true ↔ strlen path < 1024
    rw [← hlen, luatMockInit, PathBuffer.copy]
    by_cases hfits : 0 + (path.bytes ++ [0]).length ≤ σ.mockFilePath.bytes.length
    · rw [dif_pos hfits]
      exact iff_of_true rfl hfits
    · rw [dif_neg hfits]
      exact iff_of_false Bool.false_ne_true hfits
  | call ctx script =>
    show ((luatMockCall lua σ ctx script).map _).isSome = true ↔ _
    rw [Option.isSome_map]
    by_cases hunreached : σ.mockL = none ∨ strlen σ.mockFilePath.path = 0
    · obtain ⟨ret, -, hcall⟩ := @luatMockCall_unreached k lua σ hunreached ctx script
      rw [hcall]
      refine iff_of_true rfl fun hL hpath => ?_
      exact absurd hunreached (not_or.2 ⟨hL, hpath⟩)
    · obtain ⟨L, hL, hpath⟩ := reached_of_not hunreached
      rcases luatMockCall_spec lua hL hpath ctx script with
        ⟨hnone, hopened, hnot⟩ | ⟨hfits, ret, ctx', hcall, -⟩
      · rw [hnone]
        exact iff_of_false Bool.false_ne_true fun h => hnot (h (by rw [hL]; simp) hpath hopened)
      · rw [hcall]
        exact iff_of_true rfl fun _ _ => hfits

/-- A call that returns 0 has reached Lua. -/
theorem call_reaches {σ' : State k} {ctx ctx' : Ctx} {script : Script k}
    (hs : step lua σ (.call ctx script) = some (σ', .call 0 ctx')) :
    ∃ L, σ.mockL = some L ∧ strlen σ.mockFilePath.path ≠ 0 := by
  refine reached_of_not fun hunreached => ?_
  obtain ⟨ret, hneg, hcall⟩ := @luatMockCall_unreached k lua σ hunreached ctx script
  simp only [step, hcall, Option.map_some, Option.some.injEq, Prod.mk.injEq, Answer.call.injEq] at hs
  omega

/-- **One step** changes the stack as `leftBy` says. -/
theorem step_stack {σ' : State k} {a : Act k} {o : Answer} (hs : step lua σ a = some (σ', o))
    {L L' : Stack k} (hL : ∀ L₀, σ.mockL = some L₀ → L₀ = L) (hL' : σ'.mockL = some L') :
    L' = leftBy lua L ⟨σ, a, o, σ'⟩ := by
  cases a with
  | init made path =>
    obtain ⟨r, hinit, hr⟩ := Option.map_eq_some_iff.1 hs
    obtain ⟨buf, -, hbuf⟩ := Option.bind_eq_some_iff.1 hinit
    cases hr
    cases hbuf
    cases made with
    | false => cases hL'
    | true =>
      cases hL'
      rfl
  | call ctx script =>
    obtain ⟨r, hcall, hr⟩ := Option.map_eq_some_iff.1 hs
    cases hr
    by_cases hunreached : σ.mockL = none ∨ strlen σ.mockFilePath.path = 0
    · obtain ⟨ret, hneg, hcall'⟩ := @luatMockCall_unreached k lua σ hunreached ctx script
      rw [hcall'] at hcall
      cases hcall
      rw [hL L' hL']
      simp only [leftBy, hneg, if_true]
    · obtain ⟨L₀, hL₀, hpath⟩ := reached_of_not hunreached
      obtain rfl := hL L₀ hL₀
      rcases luatMockCall_spec lua hL₀ hpath ctx script with
        ⟨hnone, -⟩ | ⟨-, ret, ctx', hcall', hret, -⟩
      · rw [hnone] at hcall
        cases hcall
      · rw [hcall'] at hcall
        cases hcall
        cases hL'
        have hnot : ¬ ret < 0 := by omega
        simp only [leftBy, hnot, if_false]

/-- **A run.**  All that stands on the stack is what the calls have left there. -/
theorem run_stack (h : Run (machine lua) tr σ) {L : Stack k} (hL : σ.mockL = some L) :
    L = left lua tr := by
  induction h generalizing L with
  | start => cases hL
  | snoc _ hs ih =>
    rw [left_concat]
    exact step_stack hs (fun L₀ hL₀ => ih hL₀) hL

end

/-- **Whose answer a call gets.**  After any calls, the next one stays inside of its buffers if
and only if what it copies fits them.  A call that returns 0 is filled from the two values
that the mock function returned for it, if the script could be loaded and these values
come to stand at the bottom of the stack: that is, if no call was made since
`luat_mock_init`, or the values left there are the same. -/
theorem mock_call_fills_own {lua : Conv k} {tr : List (Trans k)} {σ : State k}
    (h : Run (machine lua) tr σ) :
    (∀ a : Act k, (step lua σ a).isSome = true ↔ a.Fits σ) ∧
    ∀ (pre post : List (Trans k)) (e : Trans k), tr = pre ++ e :: post →
      ∀ (ctx ctx' : Ctx) (script : Script k) (mockf : Value k), e.act = .call ctx script →
        e.out = .call 0 ctx' → script.loading = .returns mockf →
        (∀ code value, script.returned ctx = some (code, value) →
          (left lua pre ++ [code, value]).take 2 = [code, value]) →
        ∃ code value, script.returned ctx = some (code, value) ∧
          ctx' = ctx.fill lua.toInteger code value := by
  refine ⟨step_isSome_iff, ?_⟩
  intro pre post e he ctx ctx' script mockf hact hout hloads hbottom
  obtain ⟨hpre, hs⟩ := h.split he
  obtain ⟨src, act, out, dst⟩ := e
  obtain rfl : act = _ := hact
  obtain rfl : out = _ := hout
  replace hpre : Run (machine lua) pre src := hpre
  replace hs : step lua src (.call ctx script) = some (dst, .call 0 ctx') := hs
  obtain ⟨L, hL, hpath⟩ := call_reaches hs
  obtain rfl := run_stack hpre hL
  obtain ⟨r, hcall, hr⟩ := Option.map_eq_some_iff.1 hs
  rcases luatMockCall_spec lua hL hpath ctx script with
    ⟨hnone, -⟩ | ⟨-, ret, ctx₁, hcall', -, hfill⟩
  · rw [hnone] at hcall
    cases hcall
  · rw [hcall'] at hcall
    cases hcall
    cases hr
    obtain ⟨code, value, -, hreturned, hctx⟩ := hfill rfl
    have hown := hreturned mockf hloads
    refine ⟨code, value, hown, ?_⟩
    rw [hctx, index_one_eq (hbottom code value hown), index_two_eq (hbottom code value hown)]

/-- A script whose mock function returns these two values. -/
def answers (code value : Value 4) : Script 4 :=
  ⟨.returns (.object .function), fun _ _ _ => .ok (code, value)⟩

/-- A script whose mock function raises an error. -/
def raises (msg : Value 4) : Script 4 :=
  ⟨.returns (.object .function), fun _ _ _ => .error ⟨2, msg, by decide⟩⟩

/-- A context that asks for something. -/
def asks : Ctx := ⟨[97], [], none, 0, 0, 0⟩

/-- `lua_tointeger` of integers. -/
def plain : Conv 4 where
  toInteger
    | .integer i => i
    | _ => 0
  numberText _ := []

/-- Two calls fail with the errors 7 and 8. -/
def twoErrors : List (Act 4) :=
  [.init true ⟨ascii "t/m.lua", by decide⟩, .call asks (raises (.integer 7)),
    .call asks (raises (.integer 8))]

/-- The next call is answered with these two numbers as texts. -/
theorem mock_call_fills_own_texts :
    ∃ σ ctx' code value, step plain ((machine plain).stateOf twoErrors)
        (.call asks (answers (.string [55]) (.string [56]))) = some (σ, .call 0 ctx') ∧
      (answers (.string [55]) (.string [56])).returned asks = some (code, value) ∧
      ctx' = asks.fill plain.toInteger code value := by
  have hexec : ((machine plain).exec (machine plain).init twoErrors).isSome = true := by
    decide +kernel
  have hrun := Machine.run_exec hexec
  have hout : (step plain ((machine plain).stateOf twoErrors)
      (.call asks (answers (.string [55]) (.string [56])))).map Prod.snd =
        some (.call 0 ⟨[97], [], some [56, 0], 1, 4, 0⟩) := by decide +kernel
  obtain ⟨⟨σ, o⟩, hs, rfl⟩ := Option.map_eq_some_iff.1 hout
  have hleft : left plain ((machine plain).traceOf twoErrors) = [.string [55], .string [56]] := by
    decide +kernel
  generalize (machine plain).traceOf twoErrors = tr at hrun hleft
  generalize (machine plain).stateOf twoErrors = σ₀ at hrun hs
  have hnext : Run (machine plain) (tr ++ [⟨σ₀, .call asks (answers (.string [55]) (.string [56])),
      .call 0 ⟨[97], [], some [56, 0], 1, 4, 0⟩, σ⟩]) σ := hrun.snoc hs
  obtain ⟨code, value, hown, hctx⟩ := (mock_call_fills_own hnext).2 tr [] _ rfl asks _
    (answers (.string [55]) (.string [56])) (.object .function) rfl rfl rfl fun code value h => by
      cases h
      rw [hleft]
      rfl
  exact ⟨σ, _, code, value, hs, hown, hctx⟩

/-- Two calls, answered with 0 and a string, and with 7 and another string. -/
def twoCalls : List (Act 4) :=
  [.init true ⟨[109], by decide⟩, .call asks (answers (.integer 0) (.string [65])),
    .call asks (answers (.integer 7) (.string [66, 67]))]

/-- The second call returns 0 as well, and gets the answer of the first. -/
theorem mock_call_gets_older_answer :
    Run (machine plain) ((machine plain).traceOf twoCalls) ((machine plain).stateOf twoCalls) ∧
      ((machine plain).traceOf twoCalls).map Transition.out =
        [.init 0, .call 0 ⟨[97], [], some [65, 0], 1, 4, 0⟩,
          .call 0 ⟨[97], [], some [65, 0], 1, 4, 0⟩] ∧
      asks.fill plain.toInteger (.integer 7) (.string [66, 67]) =
        ⟨[97], [], some [66, 67, 0], 2, 4, 7⟩ :=
  ⟨Machine.run_exec (by decide +kernel), by decide +kernel, by decide⟩

end LuatosPc.Mock
