import LuatosPc.Mock
import LuatosPc.Rtos.Queue

/-!
# The drivers that ask a mock script

The drivers of `luat_adc_pc.c`, `luat_pwm_pc.c`, `luat_pm_pc.c` and `luat_wdt_pc.c`, and
`luat_os_bsp`: each sends a key and some bytes, and takes its result from the bytes of the
answer, if there are enough of them.

* `Reading` — a function together with the ranges of `resp_data` that it copies; `copyResp` —
  one `memcpy` out of it.
* `askInt` — what most of the drivers do; `luatAdcOpen` and the others — each with its key and
  its request; `luatAdcRead`, `luatPmLastState`, `luatOsBsp` — those that do something else.
* `Value.bytes` — the bytes that an answer consists of; `fill_resp` — what a context gets.
* `ReadsOnly` — nothing but the answer is copied; `UsesTwoInts` — two numbers are taken from
  an answer of two numbers.
* `mock_clients_read_iff` — for which answers `luat_adc_read` and `luat_pm_last_state` do that,
  and that the other drivers always copy bytes of the answer only.
-/

namespace LuatosPc.Mock

open LuatosPc.Bytes LuatosPc.Rtos

variable {k : Nat}

/-- What a function returns, if it stays inside of the block, and which ranges of `resp_data`
it copies, as offsets and lengths. -/
structure Reading (α : Type) where
  result : Option α
  ranges : List (Nat × Nat)
  deriving DecidableEq, Repr

/-- One after the other, until a copy leaves the block. -/
instance : Monad Reading where
  pure a := ⟨some a, []⟩
  bind m f :=
    match m.result with
    | none => ⟨none, m.ranges⟩
    | some a => ⟨(f a).result, m.ranges ++ (f a).ranges⟩

/-- `memcpy(…, ctx.resp_data + off, n)`. -/
def copyResp (ctx : Ctx) (off n : Nat) : Reading (List UInt8) where
  result :=
    match ctx.respData with
    | some b => if off + n ≤ b.length then some ((b.drop off).take n) else none
    | none => none
  ranges := [(off, n)]

/-- `sizeof(int)`. -/
def sizeofInt : Nat := 4

/-- The `int` that some bytes stand for. -/
def cInt (bs : List UInt8) : Int := Int.bmod (leValue bs) (2 ^ 32)

/-- The bytes of an `int`. -/
def intBytes (x : Int) : List UInt8 := leBytes sizeofInt (x % 2 ^ 32).toNat

/-- A context with a key and a request, zero otherwise. -/
def request (key : String) (req : List UInt8) : Ctx := ⟨ascii key, req, none, 0, 0, 0⟩

/-! ## The drivers -/

section

variable (call : Ctx → Int × Ctx)

/-- Ask, and return the `int` at the front of the answer; 0 if there is none. -/
def askInt (key : String) (req : List UInt8) : Reading Int :=
  let r := call (request key req)
  if r.1 = 0 ∧ r.2.respLen ≥ sizeofInt then do
    return cInt (← copyResp r.2 0 sizeofInt)
  else return 0

def luatAdcOpen (pin : Int) : Reading Int := askInt call "adc.open" (intBytes pin)

def luatAdcClose (pin : Int) : Reading Int := askInt call "adc.close" (intBytes pin)

def luatAdcGlobalConfig (tp val : Int) : Reading Int :=
  askInt call "adc.global_config" (intBytes tp ++ intBytes val)

/-- A `luat_pwm_conf_t`, as far as `luat_pwm_open` sets it. -/
structure PwmConf where
  channel : Int
  period : Nat
  pulse : Nat
  pnum : Int

/-- `luat_pwm_open`, where `layout` gives the bytes of the configuration. -/
def luatPwmOpen (layout : PwmConf → List UInt8) (channel : Int) (period pulse : Nat) (pnum : Int) :
    Reading Int :=
  askInt call "pwm.open" (layout ⟨channel, period, pulse, pnum⟩)

def luatPwmSetup (layout : PwmConf → List UInt8) (conf : PwmConf) : Reading Int :=
  askInt call "pwm.setup" (layout conf)

def luatPwmClose (channel : Int) : Reading Int := askInt call "pwm.close" (intBytes channel)

def luatPwmUpdateDutycycle (channel : Int) (pulse : Nat) : Reading Int :=
  askInt call "pwm.update_dutycycle" (intBytes channel ++ intBytes pulse)

def luatPmRequest (mode : Int) : Reading Int := askInt call "pm.request" (intBytes mode)

def luatPmForce (mode : Int) : Reading Int := luatPmRequest call mode

def luatPmRelease (mode : Int) : Reading Int := askInt call "pm.release" (intBytes mode)

def luatPmGetPoweronReason : Reading Int := askInt call "pm.reason" []

def luatWdtInit (w : PtrSize) (timeout : Nat) : Reading Int :=
  askInt call "wdt.init" (leBytes w.bytes timeout)

def luatWdtSetTimeout (w : PtrSize) (timeout : Nat) : Reading Int :=
  askInt call "wdt.set_timeout" (leBytes w.bytes timeout)

def luatWdtFeed : Reading Int := askInt call "wdt.feed" []

def luatWdtClose : Reading Int := askInt call "wdt.close" []

/-- What `luat_adc_read` stores without an answer; `chCpu` and `chVbat` are
`LUAT_ADC_CH_CPU` and `LUAT_ADC_CH_VBAT`. -/
def adcDefault (chCpu chVbat pin : Int) : Int × Int :=
  if pin = chCpu then (45000, 45000) else if pin = chVbat then (4120, 4120) else (-1, -1)

/-- `luat_adc_read`: what is stored in `*val` and `*val2`.  It always returns 0.  The second
number is copied whether or not the answer is that long. -/
def luatAdcRead (chCpu chVbat pin : Int) : Reading (Int × Int) :=
  let r := call (request "adc.read" (intBytes pin))
  if r.1 = 0 ∧ r.2.respLen ≥ sizeofInt then do
    let val ← copyResp r.2 0 sizeofInt
    let val2 ← copyResp r.2 sizeofInt sizeofInt
    return (cInt val, cInt val2)
  else return adcDefault chCpu chVbat pin

/-- `luat_pm_last_state`: what is then in `*lastState` and `*rtcOrPad`.  It always returns 0.
Both numbers are copied to `*lastState`. -/
def luatPmLastState (lastState rtcOrPad : Int) : Reading (Int × Int) :=
  let r := call (request "pm.lastState" [])
  if r.1 = 0 ∧ r.2.respLen ≥ sizeofInt then do
    let _ ← copyResp r.2 0 sizeofInt
    let lastState ← copyResp r.2 sizeofInt sizeofInt
    return (cInt lastState, rtcOrPad)
  else return (lastState, rtcOrPad)

/-- `luat_os_bsp`: `bsp_name` afterwards, and the string that is returned. -/
def luatOsBsp (bspName : Block) : Reading (Block × CString) :=
  let r := call (request "rtos.bsp.get" [])
  if r.1 = 0 ∧ r.2.respLen > 0 ∧ r.2.respLen < 64 then do
    let bytes ← copyResp r.2 0 r.2.respLen
    let bspName ← ⟨store bspName 0 (bytes ++ [0]), []⟩
    return (bspName, cstr bspName)
  else return (bspName, cstr (ascii "PC"))

end

/-! ## Answers -/

/-- The bytes that an answer consists of. -/
def Value.bytes : Value k → List UInt8
  | nil => []
  | boolean b => [if b then 1 else 0]
  | integer i => leBytes k i.toNat
  | number bits => leBytes k bits.toNat
  | string s => s
  | object _ => []

/-- A mock call that returns `ret`; if that is 0, it is answered with two values. -/
def answered (toInteger : Value k → BitVec (8 * k)) (ret : Int) (code value : Value k) (ctx : Ctx) :
    Int × Ctx :=
  (ret, if ret = 0 then ctx.fill toInteger code value else ctx)

/-- **What an empty context gets**: the length of the answer, and a block that begins with its
bytes. -/
theorem fill_resp (toInteger : Value k → BitVec (8 * k)) (code value : Value k) (key : String)
    (req : List UInt8) :
    ((request key req).fill toInteger code value).respLen = value.bytes.length ∧
      (0 < value.bytes.length → ∃ rest,
        ((request key req).fill toInteger code value).respData = some (value.bytes ++ rest)) := by
  cases value with
  | nil => exact ⟨rfl, fun h => absurd h (Nat.lt_irrefl 0)⟩
  | boolean b => exact ⟨rfl, fun _ => ⟨[], rfl⟩⟩
  | integer i => exact ⟨(length_leBytes _ _).symm, fun _ => ⟨[], by simp [Ctx.fill, Value.bytes]⟩⟩
  | number bits =>
    exact ⟨(length_leBytes _ _).symm, fun _ => ⟨[], by simp [Ctx.fill, Value.bytes]⟩⟩
  | string s =>
    by_cases hs : 0 < s.length
    · simp only [Ctx.fill, hs, if_true, Value.bytes]
      exact ⟨trivial, fun _ => ⟨[0], rfl⟩⟩
    · simp only [Ctx.fill, hs, if_false, Value.bytes]
      exact ⟨by omega, False.elim⟩
  | object t => exact ⟨rfl, fun h => absurd h (Nat.lt_irrefl 0)⟩

/-! ## What is copied -/

/-- The function stays inside of the block, and copies nothing but the first `len` bytes. -/
structure ReadsOnly {α : Type} (m : Reading α) (len : Nat) : Prop where
  inside : ∀ r ∈ m.ranges, r.1 + r.2 ≤ len
  stays : m.result ≠ none

/-- The first `int` of an answer. -/
def firstInt (bytes : List UInt8) : Int := cInt (bytes.take sizeofInt)

/-- The second one. -/
def secondInt (bytes : List UInt8) : Int := cInt ((bytes.drop sizeofInt).take sizeofInt)

/-- Two numbers are taken from an answer that has two; any other is not used. -/
def UsesTwoInts (m : Reading (Int × Int)) (ret : Int) (bytes : List UInt8)
    (default : Int × Int) : Prop :=
  m.result =
    some (if ret = 0 ∧ 2 * sizeofInt ≤ bytes.length then (firstInt bytes, secondInt bytes)
      else default)

section

variable {α β : Type} {m : Reading α}

theorem readsOnly_pure (a : α) (len : Nat) : ReadsOnly (pure a : Reading α) len := by
  constructor
  · intro r hr
    cases hr
  · intro h
    cases h

theorem bind_of_some {a : α} (h : m.result = some a) (f : α → Reading β) :
    m >>= f = ⟨(f a).result, m.ranges ++ (f a).ranges⟩ := by
  show (match m.result with
    | none => (⟨none, m.ranges⟩ : Reading β)
    | some a => ⟨(f a).result, m.ranges ++ (f a).ranges⟩) = _
  rw [h]

theorem mem_ranges_bind {r : Nat × Nat} (h : r ∈ m.ranges) (f : α → Reading β) :
    r ∈ (m >>= f).ranges := by
  show r ∈ Reading.ranges (match m.result with
    | none => (⟨none, m.ranges⟩ : Reading β)
    | some a => ⟨(f a).result, m.ranges ++ (f a).ranges⟩)
  cases m.result with
  | none => exact h
  | some a => exact List.mem_append_left _ h

end

section

variable (toInteger : Value k → BitVec (8 * k)) (ret : Int) (code value : Value k)

/-- A copy of bytes of the answer. -/
theorem copyResp_answer (key : String) (req : List UInt8) {off n : Nat} (hn : 0 < n)
    (h : off + n ≤ value.bytes.length) :
    (copyResp ((request key req).fill toInteger code value) off n).result =
      some ((value.bytes.drop off).take n) := by
  obtain ⟨rest, hdata⟩ := (fill_resp toInteger code value key req).2 (by omega)
  have hlen : off + n ≤ (value.bytes ++ rest).length := by
    rw [List.length_append]
    omega
  have hbytes : ((value.bytes ++ rest).drop off).take n = (value.bytes.drop off).take n := by
    rw [List.drop_append_of_le_length (by omega), List.take_append_of_le_length]
    rw [List.length_drop]
    omega
  simp only [copyResp, hdata]
  rw [if_pos hlen, hbytes]

/-- A driver looks at the length of the answer only if it got one. -/
theorem answered_iff (P : Nat → Prop) (key : String) (req : List UInt8) :
    (answered toInteger ret code value (request key req)).1 = 0 ∧
        P (answered toInteger ret code value (request key req)).2.respLen ↔
      ret = 0 ∧ P value.bytes.length := by
  by_cases hret : ret = 0
  · simp only [answered, hret, if_true, (fill_resp ..).1]
  · simp only [answered, hret, false_and]

/-- **The drivers that take one number** copy bytes of the answer only. -/
theorem askInt_reads (key : String) (req : List UInt8) :
    ReadsOnly (askInt (answered toInteger ret code value) key req) value.bytes.length := by
  have hiff := answered_iff toInteger ret code value (· ≥ sizeofInt) key req
  unfold askInt
  dsimp only
  split
  · rename_i hask
    obtain ⟨rfl, hlen⟩ := hiff.1 hask
    have hcopy := copyResp_answer toInteger code value key req (show 0 < sizeofInt by decide)
      (show 0 + sizeofInt ≤ value.bytes.length by omega)
    simp only [answered, if_true]
    rw [bind_of_some hcopy]
    refine ⟨?_, by intro h; cases h⟩
    intro r hr
    obtain rfl : r = (0, sizeofInt) := by simpa [copyResp, pure] using hr
    exact hlen
  · exact readsOnly_pure 0 _

/-- Two numbers, one after the other. -/
def copyTwo {α : Type} (ctx : Ctx) (f : List UInt8 → List UInt8 → α) : Reading α := do
  let x ← copyResp ctx 0 sizeofInt
  let y ← copyResp ctx sizeofInt sizeofInt
  return f x y

/-- Where the answer has two numbers, both are read. -/
theorem copyTwo_of_le (key : String) (req : List UInt8) {α : Type}
    (f : List UInt8 → List UInt8 → α) (hlen : 2 * sizeofInt ≤ value.bytes.length) :
    copyTwo ((request key req).fill toInteger code value) f =
      ⟨some (f (value.bytes.take sizeofInt) ((value.bytes.drop sizeofInt).take sizeofInt)),
        [(0, sizeofInt), (sizeofInt, sizeofInt)]⟩ := by
  have hpos : 0 < sizeofInt := by decide
  have hfirst := copyResp_answer toInteger code value key req hpos
    (show 0 + sizeofInt ≤ value.bytes.length by omega)
  have hsecond := copyResp_answer toInteger code value key req hpos
    (show sizeofInt + sizeofInt ≤ value.bytes.length by omega)
  rw [copyTwo, bind_of_some hfirst, bind_of_some hsecond]
  rfl

theorem readsOnly_copyTwo (key : String) (req : List UInt8) {α : Type}
    (f : List UInt8 → List UInt8 → α) (hlen : 2 * sizeofInt ≤ value.bytes.length) :
    ReadsOnly (copyTwo ((request key req).fill toInteger code value) f) value.bytes.length := by
  rw [copyTwo_of_le toInteger code value key req f hlen]
  refine ⟨?_, by intro h; cases h⟩
  intro r hr
  simp only [List.mem_cons, List.not_mem_nil, or_false] at hr
  obtain rfl | rfl := hr
  · show 0 + sizeofInt ≤ _
    omega
  · show sizeofInt + sizeofInt ≤ _
    omega

/-- Where it has only one, the second copy goes past its end. -/
theorem not_readsOnly_copyTwo (key : String) (req : List UInt8) {α : Type}
    (f : List UInt8 → List UInt8 → α) (hone : sizeofInt ≤ value.bytes.length)
    (hlen : ¬ 2 * sizeofInt ≤ value.bytes.length) :
    ¬ ReadsOnly (copyTwo ((request key req).fill toInteger code value) f) value.bytes.length := by
  intro h
  have hfirst := copyResp_answer toInteger code value key req (show 0 < sizeofInt by decide)
    (show 0 + sizeofInt ≤ value.bytes.length by omega)
  have hmem : (sizeofInt, sizeofInt) ∈
      (copyTwo ((request key req).fill toInteger code value) f).ranges := by
    rw [copyTwo, bind_of_some hfirst]
    exact List.mem_append_right _ (mem_ranges_bind (List.mem_singleton_self _) _)
  have hinside : sizeofInt + sizeofInt ≤ value.bytes.length := h.inside _ hmem
  omega

/-- **A driver that takes two numbers**, where it needs only one to do so: when it copies bytes
of the answer only, and what it then gives. -/
theorem copyTwo_iff (key : String) (req : List UInt8) (f : List UInt8 → List UInt8 → Int × Int)
    (default : Int × Int) (m : Reading (Int × Int))
    (hm : m =
      if (answered toInteger ret code value (request key req)).1 = 0 ∧
          (answered toInteger ret code value (request key req)).2.respLen ≥ sizeofInt then
        copyTwo (answered toInteger ret code value (request key req)).2 f
      else pure default) :
    ReadsOnly m value.bytes.length ∧ UsesTwoInts m ret value.bytes default ↔
      ret ≠ 0 ∨ value.bytes.length < sizeofInt ∨
        2 * sizeofInt ≤ value.bytes.length ∧
          f (value.bytes.take sizeofInt) ((value.bytes.drop sizeofInt).take sizeofInt) =
            (firstInt value.bytes, secondInt value.bytes) := by
  have hiff := answered_iff toInteger ret code value (· ≥ sizeofInt) key req
  subst hm
  by_cases hask : ret = 0 ∧ value.bytes.length ≥ sizeofInt
  · rw [if_pos (hiff.2 hask)]
    obtain ⟨rfl, hone⟩ := hask
    simp only [answered, if_true, ne_eq, not_true_eq_false, false_or, not_lt.2 hone]
    by_cases htwo : 2 * sizeofInt ≤ value.bytes.length
    · rw [and_iff_right (readsOnly_copyTwo toInteger code value key req f htwo),
        copyTwo_of_le toInteger code value key req f htwo]
      simp only [UsesTwoInts, htwo, and_self, if_true, Option.some.injEq, true_and]
    · have hnot := not_readsOnly_copyTwo toInteger code value key req f hone htwo
      exact ⟨fun h => absurd h.1 hnot, fun h => absurd h.1 htwo⟩
  · rw [if_neg (mt hiff.1 hask)]
    have hshort : ret ≠ 0 ∨ value.bytes.length < sizeofInt := by
      by_cases hret : ret = 0
      · exact .inr (not_le.1 fun h => hask ⟨hret, h⟩)
      · exact .inl hret
    have huses : UsesTwoInts (pure default) ret value.bytes default := by
      have hno : ¬ (ret = 0 ∧ 2 * sizeofInt ≤ value.bytes.length) := by
        rintro ⟨hret, hlen⟩
        exact hask ⟨hret, by omega⟩
      rw [UsesTwoInts, if_neg hno]
      rfl
    refine ⟨fun _ => ?_, fun _ => ⟨readsOnly_pure _ _, huses⟩⟩
    exact hshort.elim .inl fun h => .inr (.inl h)

/-- **The name of the board** is taken from bytes of the answer only. -/
theorem luatOsBsp_reads {bspName : Block} (hname : bspName.length = 64) :
    ReadsOnly (luatOsBsp (answered toInteger ret code value) bspName) value.bytes.length := by
  have hiff := answered_iff toInteger ret code value (fun n => n > 0 ∧ n < 64) "rtos.bsp.get" []
  unfold luatOsBsp
  dsimp only
  split
  · rename_i hask
    obtain ⟨rfl, hpos, hlt⟩ := hiff.1 hask
    simp only [answered, if_true, (fill_resp ..).1]
    have hcopy := copyResp_answer toInteger code value "rtos.bsp.get" [] hpos
      (show 0 + value.bytes.length ≤ value.bytes.length by omega)
    have hstore : store bspName 0 ((value.bytes.drop 0).take value.bytes.length ++ [0]) =
        some (overwrite bspName 0 ((value.bytes.drop 0).take value.bytes.length ++ [0])) := by
      apply store_of_le
      rw [List.drop_zero, List.take_length, List.length_append, List.length_singleton]
      omega
    rw [bind_of_some hcopy, hstore]
    refine ⟨?_, by intro h; cases h⟩
    intro r hr
    obtain rfl : r = (0, value.bytes.length) := by simpa [copyResp, bind, pure] using hr
    exact (Nat.zero_add _).le
  · exact readsOnly_pure _ _

/-- Every mock call that comes back is one that is answered with two values, or not at all. -/
theorem luatMockCall_answered (lua : Conv k) {σ : State k} {ctx : Ctx} {script : Script k}
    {r : State k × Int × Ctx} (h : luatMockCall lua σ ctx script = some r) :
    ∃ ret code value, r.2 = answered lua.toInteger ret code value ctx := by
  have hfails : ∀ ret : Int, ret ≠ 0 →
      (ret, ctx) = answered lua.toInteger ret Value.nil Value.nil ctx := by
    intro ret hret
    rw [answered, if_neg hret]
  by_cases hunreached : σ.mockL = none ∨ strlen σ.mockFilePath.path = 0
  · obtain ⟨ret, hneg, hcall⟩ := @luatMockCall_unreached k lua σ hunreached ctx script
    obtain rfl := Option.some.inj (hcall.symm.trans h)
    exact ⟨_, _, _, hfails _ hneg.ne⟩
  · obtain ⟨L, hL, hpath⟩ := reached_of_not hunreached
    rw [luatMockCall_eq lua hL hpath ctx script] at h
    split at h
    · cases h
    · obtain rfl := Option.some.inj h
      exact ⟨_, _, _, hfails _ (LuaError.status_pos _).ne'⟩
    · obtain rfl := Option.some.inj h
      exact ⟨0, _, _, rfl⟩

/-- The drivers other than `luat_adc_read` and `luat_pm_last_state` copy nothing but the first
`len` bytes. -/
structure OthersReadOnly (call : Ctx → Int × Ctx) (len : Nat) : Prop where
  adcOpen : ∀ pin, ReadsOnly (luatAdcOpen call pin) len
  adcClose : ∀ pin, ReadsOnly (luatAdcClose call pin) len
  adcGlobalConfig : ∀ tp val, ReadsOnly (luatAdcGlobalConfig call tp val) len
  pwmOpen : ∀ layout channel period pulse pnum,
    ReadsOnly (luatPwmOpen call layout channel period pulse pnum) len
  pwmSetup : ∀ layout conf, ReadsOnly (luatPwmSetup call layout conf) len
  pwmClose : ∀ channel, ReadsOnly (luatPwmClose call channel) len
  pwmUpdateDutycycle : ∀ channel pulse, ReadsOnly (luatPwmUpdateDutycycle call channel pulse) len
  pmRequest : ∀ mode, ReadsOnly (luatPmRequest call mode) len
  pmForce : ∀ mode, ReadsOnly (luatPmForce call mode) len
  pmRelease : ∀ mode, ReadsOnly (luatPmRelease call mode) len
  pmGetPoweronReason : ReadsOnly (luatPmGetPoweronReason call) len
  wdtInit : ∀ w timeout, ReadsOnly (luatWdtInit call w timeout) len
  wdtSetTimeout : ∀ w timeout, ReadsOnly (luatWdtSetTimeout call w timeout) len
  wdtFeed : ReadsOnly (luatWdtFeed call) len
  wdtClose : ReadsOnly (luatWdtClose call) len
  osBsp : ∀ bspName : Block, bspName.length = 64 → ReadsOnly (luatOsBsp call bspName) len

theorem othersReadOnly_answered :
    OthersReadOnly (answered toInteger ret code value) value.bytes.length where
  adcOpen _ := askInt_reads ..
  adcClose _ := askInt_reads ..
  adcGlobalConfig _ _ := askInt_reads ..
  pwmOpen _ _ _ _ _ := askInt_reads ..
  pwmSetup _ _ := askInt_reads ..
  pwmClose _ := askInt_reads ..
  pwmUpdateDutycycle _ _ := askInt_reads ..
  pmRequest _ := askInt_reads ..
  pmForce _ := askInt_reads ..
  pmRelease _ := askInt_reads ..
  pmGetPoweronReason := askInt_reads ..
  wdtInit _ _ := askInt_reads ..
  wdtSetTimeout _ _ := askInt_reads ..
  wdtFeed := askInt_reads ..
  wdtClose := askInt_reads ..
  osBsp _ hname := luatOsBsp_reads toInteger ret code value hname

/-- **What the drivers read of an answer.**  All but two copy bytes of the answer only.
`luat_adc_read` and `luat_pm_last_state` do so, and take two numbers from an answer of two, if and
only if the answer does not have one number only; the second of them also needs that both numbers
are the same, and stand in `*rtcOrPad` already. -/
theorem mock_clients_read_iff :
    (∀ key req,
      ((request key req).fill toInteger code value).respLen = value.bytes.length) ∧
      OthersReadOnly (answered toInteger ret code value) value.bytes.length ∧
      (∀ chCpu chVbat pin,
        let m := luatAdcRead (answered toInteger ret code value) chCpu chVbat pin
        ReadsOnly m value.bytes.length ∧
            UsesTwoInts m ret value.bytes (adcDefault chCpu chVbat pin) ↔
          ret ≠ 0 ∨ value.bytes.length < sizeofInt ∨ 2 * sizeofInt ≤ value.bytes.length) ∧
      ∀ lastState rtcOrPad,
        let m := luatPmLastState (answered toInteger ret code value) lastState rtcOrPad
        ReadsOnly m value.bytes.length ∧
            UsesTwoInts m ret value.bytes (lastState, rtcOrPad) ↔
          ret ≠ 0 ∨ value.bytes.length < sizeofInt ∨
            2 * sizeofInt ≤ value.bytes.length ∧
              firstInt value.bytes = secondInt value.bytes ∧
              rtcOrPad = secondInt value.bytes := by
  refine ⟨fun key req => (fill_resp toInteger code value key req).1,
    othersReadOnly_answered toInteger ret code value, ?_, ?_⟩
  · intro chCpu chVbat pin
    have h := copyTwo_iff toInteger ret code value "adc.read" (intBytes pin)
      (fun x y => (cInt x, cInt y)) (adcDefault chCpu chVbat pin)
      (luatAdcRead (answered toInteger ret code value) chCpu chVbat pin) rfl
    simpa only [firstInt, secondInt, and_true] using h
  · intro lastState rtcOrPad
    have h := copyTwo_iff toInteger ret code value "pm.lastState" []
      (fun _ y => (cInt y, rtcOrPad)) (lastState, rtcOrPad)
      (luatPmLastState (answered toInteger ret code value) lastState rtcOrPad) rfl
    rw [Prod.mk.injEq, eq_comm (a := cInt _)] at h
    exact h

/-- An answer of one number of 32 bits: `luat_adc_read` copies the four bytes behind it.  An answer
with the numbers 1 and 2: `luat_pm_last_state` stores 2 as the first, and nothing as the
second. -/
theorem mock_clients_read_past :
    (luatAdcRead (answered (fun _ => 0#32) 0 (.integer 0) (Value.integer (k := 4) 7))
        0 1 2).ranges = [(0, 4), (4, 4)] ∧
      (Value.integer (k := 4) 7).bytes.length = 4 ∧
      (luatPmLastState (answered (fun _ => 0#32) 0 (.integer 0)
        (Value.string (k := 4) [1, 0, 0, 0, 2, 0, 0, 0])) 8 9).result = some (2, 9) := by
  decide +kernel

end

end LuatosPc.Mock
