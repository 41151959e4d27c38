import LuatosPc.Mock

/-!
# Mock calls that get no answer

There are five ways not to get an answer: the script file is missing, it does not fit into
memory, it does not compile, it raises an error when it is run, or the mock function raises
one.  Lua reports the last one.  The others are noticed by `load_mock_lua_file`, and its
negative code becomes the number of results of `mock_main`: Lua takes it for none, fills up
with nil, and the protected call succeeds.

* `Script.Loads` — the script gives a mock function; `mockMain_of_loads`,
  `mockMain_of_not_loads` — what `mock_main` returns.
* `Reported` — a call that fails and leaves its context alone; `ValidCount` — what a C function
  may return to Lua.
* `mock_failure_reported_iff` — a failure is reported if and only if Lua was not reached, or the
  script could be loaded and its name fits its buffer; and that is when the number of results is
  valid.
-/

namespace LuatosPc.Mock

open LuatosPc.Bytes

variable {k : Nat}

/-- The script is loaded and run, and returns a mock function. -/
def Script.Loads (script : Script k) : Prop := ∃ mockf, script.loading = .returns mockf

/-- The call comes back with an error, and all of the response is as it was. -/
def Reported (lua : Conv k) (σ : State k) (ctx : Ctx) (script : Script k) : Prop :=
  ∃ σ' ret, luatMockCall lua σ ctx script = some (σ', ret, ctx) ∧ ret ≠ 0

/-- `mock_main` stays inside of its buffers, and what it returns is the number of some of the
values that it pushed. -/
def ValidCount (lua : Conv k) (path : PathBuffer) (script : Script k) (frame : Stack k) : Prop :=
  ∃ r, mockMain lua path script frame = some r ∧
    ∀ n frame', r = .ok (n, frame') → 0 ≤ n ∧ n ≤ (frame'.length : Int) - frame.length

section

variable {lua : Conv k} {path : PathBuffer} {script : Script k}

theorem Script.Loads.opened (h : script.Loads) : script.opened = true := by
  obtain ⟨mockf, hloading⟩ := h
  rw [Script.opened, hloading]

/-- A script that is loaded has its function called, and two values are returned. -/
theorem mockMain_of_loads (h : script.Loads) (hfits : NameFits path.path) (frame : Stack k) :
    (∃ e, mockMain lua path script frame = some (.error e)) ∨
      ∃ code value, mockMain lua path script frame = some (.ok (2, frame ++ [code, value])) := by
  unfold mockMain
  rcases loadMockLuaFile_cases lua path script frame with
    ⟨-, -, hnot⟩ | ⟨mockf, -, -, hload⟩ | ⟨n, frame', v, -, hno, -⟩
  · exact absurd hfits hnot
  · rw [hload]
    simp only [Option.bind_eq_bind, Option.bind_some, ne_eq, not_true_eq_false, if_false]
    cases script.call mockf (index frame 1) (index frame 2) with
    | error e => exact .inl ⟨e, rfl⟩
    | ok values => exact .inr ⟨values.1, values.2, rfl⟩
  · obtain ⟨mockf, hloading⟩ := h
    exact absurd hloading (hno mockf)

/-- The code of a script that is not loaded is returned as the number of results, unless its
name has run over. -/
theorem mockMain_of_not_loads (h : ¬ script.Loads) (frame : Stack k) :
    mockMain lua path script frame = none ∨
      ∃ n frame', mockMain lua path script frame = some (.ok (n, frame')) ∧ n < 0 := by
  unfold mockMain
  rcases loadMockLuaFile_cases lua path script frame with
    ⟨hnone, -⟩ | ⟨mockf, hloading, -⟩ | ⟨n, frame', v, hneg, -, -, hload⟩
  · rw [hnone]
    exact .inl rfl
  · exact absurd ⟨mockf, hloading⟩ h
  · rw [hload]
    exact .inr ⟨n, frame', if_pos hneg.ne, hneg⟩

/-- **The number of results** is valid if and only if the script is loaded, with a name that
fits. -/
theorem validCount_iff (frame : Stack k) :
    ValidCount lua path script frame ↔ script.Loads ∧ NameFits path.path := by
  constructor
  · rintro ⟨r, hmain, hvalid⟩
    have hloads : script.Loads := by
      by_contra hloads
      obtain hnone | ⟨n, frame', hok, hneg⟩ :=
        @mockMain_of_not_loads k lua path script hloads frame
      · rw [hnone] at hmain
        cases hmain
      · rw [hok] at hmain
        have hpos := (hvalid n frame' (Option.some.inj hmain).symm).1
        omega
    refine ⟨hloads, ?_⟩
    rcases loadMockLuaFile_cases lua path script frame with
      ⟨hnone, -⟩ | ⟨_, _, hfits, _⟩ | ⟨_, _, _, _, _, hfits, _⟩
    · rw [mockMain, hnone] at hmain
      cases hmain
    · exact hfits
    · exact hfits hloads.opened
  · rintro ⟨hloads, hfits⟩
    obtain ⟨e, herror⟩ | ⟨code, value, hok⟩ := @mockMain_of_loads k lua path script hloads hfits frame
    · exact ⟨_, herror, nofun⟩
    · refine ⟨_, hok, ?_⟩
      intro n frame' h
      cases h
      rw [List.length_append, List.length_cons, List.length_singleton]
      omega

end

section

variable (lua : Conv k) {σ : State k} {ctx : Ctx} {script : Script k}

/-- Without a Lua state or a script, a call says so. -/
theorem reported_of_unreached (h : σ.mockL = none ∨ strlen σ.mockFilePath.path = 0) :
    Reported lua σ ctx script := by
  obtain ⟨ret, hneg, hcall⟩ := @luatMockCall_unreached k lua σ h ctx script
  exact ⟨σ, ret, hcall, hneg.ne⟩

/-- An error that Lua raises is reported. -/
theorem reported_of_error {e : LuaError k}
    (h : mockMain lua σ.mockFilePath script [.string ctx.key, .string ctx.req] =
      some (.error e)) : Reported lua σ ctx script := by
  by_cases hunreached : σ.mockL = none ∨ strlen σ.mockFilePath.path = 0
  · exact reported_of_unreached lua hunreached
  · obtain ⟨L, hL, hpath⟩ := reached_of_not hunreached
    have hcall := luatMockCall_eq lua hL hpath ctx script
    rw [h] at hcall
    exact ⟨_, _, hcall, e.status_pos.ne'⟩

/-- With a Lua state and a script that is not loaded, or whose name does not fit, a call returns
0 or does not come back. -/
theorem not_reported_of_not {L : Stack k} (hL : σ.mockL = some L)
    (hpath : strlen σ.mockFilePath.path ≠ 0)
    (h : ¬ (script.Loads ∧ NameFits σ.mockFilePath.path)) : ¬ Reported lua σ ctx script := by
  rintro ⟨σ', ret, hcall, hret⟩
  rw [luatMockCall_eq lua hL hpath ctx script] at hcall
  by_cases hloads : script.Loads
  · -- the file is opened, and its name copied
    rcases mockMain_cases lua σ.mockFilePath script ctx with ⟨hmain, -⟩ | ⟨hfits, -⟩
    · rw [hmain] at hcall
      cases hcall
    · exact h ⟨hloads, hfits hloads.opened⟩
  · obtain hmain | ⟨n, frame, hmain, -⟩ := @mockMain_of_not_loads k lua σ.mockFilePath script hloads
      [.string ctx.key, .string ctx.req]
    · rw [hmain] at hcall
      cases hcall
    · rw [hmain] at hcall
      exact hret (congrArg (fun r => r.2.1) (Option.some.inj hcall)).symm

end

/-- **Failures of a mock call.**  A call that gets no answer from the mock function returns an
error and leaves its context alone if and only if it does not get as far as Lua, or the script
can be loaded, so that it is the mock function that fails, and the name of the script fits the
buffer it is copied to.  What `mock_main` returns is a valid number of results if and only if
the script can be loaded and its name fits. -/
theorem mock_failure_reported_iff (lua : Conv k) (σ : State k) (ctx : Ctx) (script : Script k)
    (hfails : script.returned ctx = none) :
    (Reported lua σ ctx script ↔
      σ.mockL = none ∨ strlen σ.mockFilePath.path = 0 ∨
        script.Loads ∧ NameFits σ.mockFilePath.path) ∧
    ∀ frame, ValidCount lua σ.mockFilePath script frame ↔
      script.Loads ∧ NameFits σ.mockFilePath.path := by
  refine ⟨?_, validCount_iff⟩
  rw [← or_assoc]
  by_cases hunreached : σ.mockL = none ∨ strlen σ.mockFilePath.path = 0
  · exact iff_of_true (reported_of_unreached lua hunreached) (.inl hunreached)
  obtain ⟨L, hL, hpath⟩ := reached_of_not hunreached
  rw [or_iff_right hunreached]
  constructor
  · intro hreported
    by_contra hnot
    exact not_reported_of_not lua hL hpath hnot hreported
  · rintro ⟨⟨mockf, hloading⟩, hfits⟩
    -- the mock function was called, so it was the one that failed
    rcases mockMain_cases lua σ.mockFilePath script ctx with ⟨-, -, hnot⟩ | ⟨-, hmain⟩
    · exact absurd hfits hnot
    · obtain ⟨e, hmain, -⟩ | ⟨n, frame, code, value, -, -, -, hreturned⟩ := hmain
      · exact reported_of_error lua hmain
      · rw [hreturned mockf hloading] at hfails
        cases hfails

/-- A Lua state with a script. -/
def withScript : State 4 := ((luatMockInit .start true (cstr (ascii "t/m.lua"))).map Prod.fst).getD .start

theorem mock_failure_reported_raises :
    (raises (.string [33])).returned asks = none ∧
      Reported plain withScript asks (raises (.string [33])) := by
  have hfits : NameFits withScript.mockFilePath.path := by decide +kernel
  exact ⟨rfl, (mock_failure_reported_iff plain withScript asks (raises (.string [33])) rfl).1.2
    (.inr (.inr ⟨⟨.object .function, rfl⟩, hfits⟩))⟩

/-- There is no script file. -/
def missing : Script 4 := ⟨.noFile, fun _ _ _ => .ok (.nil, .nil)⟩

/-- Without a script file a call returns 0, after -3 was given to Lua as a number of results;
so it does for a file that is too large, that does not compile or that raises an error. -/
theorem mock_failure_returns_zero :
    (missing.returned asks = none ∧
      mockMain plain withScript.mockFilePath missing [.string asks.key, .string asks.req] =
        some (.ok (-3, [.string asks.key, .string asks.req])) ∧
      (luatMockCall plain withScript asks missing).map (fun r => r.2.1) = some 0) ∧
    ∀ loading ∈ [Loading.noMemory, .syntaxError .nil, .runError .nil],
      (luatMockCall plain withScript asks ⟨loading, missing.call⟩).map (fun r => r.2.1) =
        some 0 := by
  refine ⟨⟨rfl, rfl, by decide +kernel⟩, ?_⟩
  simp only [List.forall_mem_cons]
  exact ⟨by decide +kernel, by decide +kernel, by decide +kernel, by simp⟩

end LuatosPc.Mock
