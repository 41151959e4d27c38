import LuatosPc.Base.Machine
import LuatosPc.Base.Slots
import LuatosPc.Rtos.Queue

/-!
# The timers of the Lua machine

The model of `luat_timer_pc.c`: a table of 1024 pointers to libuv timers, each of which
points to the `luat_timer_t` of its owner, which in turn points back in `os_timer`.  A
timer that expires is looked up again by its id, and posts a message.

* `LuatTimer`, `UvTimer`, `State` — the timers of the callers, those of libuv, and the
  table.
* `luatTimerStart`, `luatTimerStop`, `luatTimerGet`, `timerCb` — the functions of the
  source; `Act`, `step`, `machine` — every order of calls and expirations.
* `Ledger` — what the history says about the timers that are started and not stopped: the
  id, the number of repetitions asked for, and the messages posted so far.
* `Table` — the table agrees with the ledger; `Entry.Counts` — so do the counter
  of the timer and whether it is armed.
* `timer_table` — both hold in every run in which the ids are distinct and survive the
  conversion to `int`, and no timer is stopped whose libuv timer belongs to another one.

A slot never points to a block that is not in use, as `Table` says; where the source
would follow such a pointer the model passes over the slot.  The result of `uv_timer_init`
is an argument; a `luat_timer_t` is filled in by its owner before it is started.
-/

namespace LuatosPc.Rtos.Timer

open LuatosPc.Slots

/-- A `size_t`. -/
abbrev SizeT (w : PtrSize) := BitVec (8 * w.bytes)

/-- A `luat_timer_t *`. -/
abbrev TimerPtr := Nat

/-- A message handler, of which only the identity matters here. -/
abbrev Handler := Nat

/-- `TIMER_ID_MAX`. -/
def timerIdMax : Nat := 1024

section

variable (w : PtrSize)

/-- The fields of a `luat_timer_t` that its owner fills in.  The counter is an `int` that is
only ever decremented from a positive value. -/
structure Setup where
  id : SizeT w
  timeout : SizeT w
  repeats : Int
  func : Handler
  deriving DecidableEq

/-- A `luat_timer_t`. -/
structure LuatTimer extends Setup w where
  osTimer : Option Addr
  deriving DecidableEq

/-- A `uv_timer_t`. -/
structure UvTimer where
  data : Option TimerPtr
  /-- The timeout with which it was started, if it is active. -/
  armed : Option (SizeT w)
  closing : Bool
  deriving DecidableEq

/-- The timers of the owners, the blocks of libuv timers, and the table. -/
structure State where
  luat : TimerPtr → LuatTimer w
  handles : Addr → Option (UvTimer w)
  timers : Fin timerIdMax → Option Addr

end

/-- An `rtos_msg_t`. -/
structure Msg where
  handler : Handler
  ptr : Option Addr
  arg1 : Int32
  arg2 : Int32
  deriving DecidableEq, Repr

/-- What a step gives to the outside. -/
inductive Answer
  | nothing
  | ret (r : Int)
  | got (t : Option TimerPtr)
  | posted (msg : Msg)
  /-- `uv_timer_stop(NULL)`. -/
  | nullHandle
  deriving DecidableEq, Repr

variable {w : PtrSize}

/-- A `size_t` converted to an `int`. -/
def toInt (x : SizeT w) : Int32 := Int32.ofBitVec (x.setWidth 32)

/-- An `int` converted to a `size_t`. -/
def ofInt (x : Int32) : SizeT w := x.toBitVec.signExtend _

namespace UvTimer

/-- `uv_timer_start`. -/
def uvTimerStart (h : UvTimer w) (timeout : SizeT w) : UvTimer w × Int :=
  if h.closing then (h, -22) else ({ h with armed := some timeout }, 0)

/-- `uv_timer_stop`. -/
def uvTimerStop (h : UvTimer w) : UvTimer w := { h with armed := none }

/-- `uv_close`. -/
def uvClose (h : UvTimer w) : UvTimer w := { h with armed := none, closing := true }

end UvTimer

namespace State

variable (σ : State w)

def setLuat (t : TimerPtr) (x : LuatTimer w) : State w :=
  { σ with luat := Function.update σ.luat t x }

def setHandle (a : Addr) (h : Option (UvTimer w)) : State w :=
  { σ with handles := Function.update σ.handles a h }

def setSlot (i : Fin timerIdMax) (a : Option Addr) : State w :=
  { σ with timers := Function.update σ.timers i a }

section

variable {a b : Addr} {t v : TimerPtr} {i j : Fin timerIdMax}

@[simp] theorem setLuat_luat_self (x : LuatTimer w) : (σ.setLuat t x).luat t = x :=
  Function.update_self _ _ _

theorem setLuat_luat_of_ne (h : v ≠ t) (x : LuatTimer w) : (σ.setLuat t x).luat v = σ.luat v :=
  Function.update_of_ne h _ _

@[simp] theorem setHandle_handles_self (h : Option (UvTimer w)) :
    (σ.setHandle a h).handles a = h :=
  Function.update_self _ _ _

theorem setHandle_handles_of_ne (hb : b ≠ a) (h : Option (UvTimer w)) :
    (σ.setHandle a h).handles b = σ.handles b :=
  Function.update_of_ne hb _ _

@[simp] theorem setSlot_timers_self (x : Option Addr) : (σ.setSlot i x).timers i = x :=
  Function.update_self _ _ _

theorem setSlot_timers_of_ne (h : j ≠ i) (x : Option Addr) :
    (σ.setSlot i x).timers j = σ.timers j :=
  Function.update_of_ne h _ _

end

/-- `get_free_timer_id`. -/
def getFreeTimerId : Option (Fin timerIdMax) :=
  Fin.find? fun i => (σ.timers i).isNone

/-- The test of `get_timer_by_id` on one slot. -/
def slotById (id : SizeT w) (i : Fin timerIdMax) : Option (Addr × UvTimer w) := do
  let a ← σ.timers i
  let h ← σ.handles a
  let timer ← h.data
  if (σ.luat timer).id = id then some (a, h) else none

/-- `get_timer_by_id`: the libuv timer, with what is in its block. -/
def getTimerById (id : SizeT w) : Option (Addr × UvTimer w) := Fin.findSome? (σ.slotById id)

/-- `timer_cb` for the libuv timer `h`, which libuv has stopped. -/
def timerCb (h : UvTimer w) : State w × Answer :=
  match h.data with
  | none => (σ, .nothing)
  | some timer =>
    let id := toInt (σ.luat timer).id
    match σ.getTimerById (ofInt id) with
    | none => (σ, .nothing)
    | some (t, h') =>
      match h'.data with
      | none => (σ, .nothing)
      | some timer =>
        let x := σ.luat timer
        let again := σ.setHandle t (some (h'.uvTimerStart x.timeout).1)
        let σ' :=
          if x.repeats > 0 then again.setLuat timer { x with repeats := x.repeats - 1 }
          else if x.repeats = -1 then again
          else σ
        (σ', .posted ⟨x.func, none, toInt x.id, 0⟩)

/-- `luat_timer_start`, for which the heap returns the block `a`. -/
def luatTimerStart (t : TimerPtr) (a : Addr) (initRet : Int) : State w × Int :=
  match σ.getFreeTimerId with
  | none => (σ, -1)
  | some id =>
    if initRet ≠ 0 then (σ.setHandle a (some ⟨none, none, true⟩), -1)
    else
      let r := (⟨some t, none, false⟩ : UvTimer w).uvTimerStart (σ.luat t).timeout
      (((σ.setSlot id (some a)).setLuat t { σ.luat t with osTimer := some a }).setHandle a
        (some r.1), r.2)

/-- `luat_timer_stop`. -/
def luatTimerStop (t : TimerPtr) : State w × Answer :=
  let timerReq := (σ.luat t).osTimer
  match Fin.find? fun i => decide (timerReq = σ.timers i) with
  | none => (σ, .ret (-1))
  | some i =>
    match timerReq with
    | none => (σ, .nullHandle)
    | some a => ((σ.setHandle a ((σ.handles a).map UvTimer.uvClose)).setSlot i none, .ret 0)

/-- `luat_timer_get`. -/
def luatTimerGet (timerId : SizeT w) : Option TimerPtr := (σ.getTimerById timerId).bind (·.2.data)

end State

/-- One action. -/
inductive Act (w : PtrSize)
  /-- The owner fills in its timer and starts it. -/
  | luatTimerStart (t : TimerPtr) (setup : Setup w) (a : Addr) (initRet : Int)
  | luatTimerStop (t : TimerPtr)
  | luatTimerGet (timerId : SizeT w)
  /-- libuv finds that the time of a timer has come. -/
  | expire (a : Addr)
  /-- `on_free`: a closed timer is freed. -/
  | onFree (a : Addr)
  deriving DecidableEq

/-- One step.  The heap returns blocks that are not in use. -/
def step (σ : State w) : Act w → Option (State w × Answer)
  | .luatTimerStart t setup a initRet =>
    if σ.handles a = none then
      let σ := σ.setLuat t { σ.luat t with toSetup := setup }
      let r := σ.luatTimerStart t a initRet
      some (r.1, .ret r.2)
    else none
  | .luatTimerStop t => some (σ.luatTimerStop t)
  | .luatTimerGet timerId => some (σ, .got (σ.luatTimerGet timerId))
  | .expire a => do
    let h ← σ.handles a
    if h.armed.isSome then
      some ((σ.setHandle a (some h.uvTimerStop)).timerCb h.uvTimerStop)
    else none
  | .onFree a => do
    let h ← σ.handles a
    if h.closing then some (σ.setHandle a none, .nothing) else none

/-- No timer is started yet. -/
def State.start : State w := ⟨fun _ => ⟨⟨0, 0, 0, 0⟩, none⟩, fun _ => none, fun _ => none⟩

/-- The timers under every order of calls and expirations. -/
def machine (w : PtrSize) : Machine (State w) (Act w) Answer := ⟨.start, step⟩

/-- A transition. -/
abbrev Trans (w : PtrSize) := Transition (State w) (Act w) Answer

/-! ## What the history says -/

/-- What is known of a timer that is started and not stopped. -/
structure Entry (w : PtrSize) where
  id : SizeT w
  /-- The number of repetitions it was started with. -/
  repeats : Int
  /-- The number of messages with its id since then. -/
  posted : Nat
  deriving DecidableEq

/-- The timers that are started and not stopped. -/
abbrev Ledger (w : PtrSize) := TimerPtr → Option (Entry w)

/-- Count a message that carries the id of the timer. -/
def Entry.count (x : Entry w) (msg : Msg) : Entry w :=
  if msg.arg1 = toInt x.id then { x with posted := x.posted + 1 } else x

/-- What a transition means for the ledger. -/
def Ledger.next (L : Ledger w) (e : Trans w) : Ledger w :=
  match e.act, e.out with
  | .luatTimerStart t setup _ _, .ret r =>
    if r = 0 then Function.update L t (some ⟨setup.id, setup.repeats, 0⟩) else L
  | .luatTimerStop t, _ => Function.update L t none
  | .expire _, .posted msg => fun t => (L t).map fun x => x.count msg
  | _, _ => L

/-- The ledger after the given transitions. -/
def ledger (tr : List (Trans w)) : Ledger w := tr.foldl Ledger.next fun _ => none

/-- The timers that are started and not stopped. -/
def Ledger.live (L : Ledger w) : Set TimerPtr := {t | L t ≠ none}

/-- A timer is stopped before it is started again, and its id is not that of another live
timer. -/
def Admitted (L : Ledger w) : Act w → Prop
  | .luatTimerStart t setup _ _ => L t = none ∧ ∀ v x, L v = some x → x.id ≠ setup.id
  | _ => True

/-- The id of a timer that is started survives the conversion to `int`; a timer that is
stopped is live, or the block of its libuv timer is not in the table. -/
def Safe (L : Ledger w) (σ : State w) : Act w → Prop
  | .luatTimerStart _ setup _ _ => ofInt (toInt setup.id) = setup.id
  | .luatTimerStop t => L t ≠ none ∨ ∃ a, (σ.luat t).osTimer = some a ∧ ∀ i, σ.timers i ≠ some a
  | _ => True

/-! ## What the table says -/

/-- Slot `i` points to the open block `a`, which belongs to timer `t`, which points back. -/
structure Owns (σ : State w) (i : Fin timerIdMax) (t : TimerPtr) (a : Addr) (h : UvTimer w) :
    Prop where
  slot : σ.timers i = some a
  block : σ.handles a = some h
  data : h.data = some t
  isOpen : h.closing = false
  osTimer : (σ.luat t).osTimer = some a

/-- The table and the ledger agree. -/
structure Table (L : Ledger w) (σ : State w) : Prop where
  owns : ∀ t x, L t = some x → ∃ i a h, Owns σ i t a h ∧ (σ.luat t).id = x.id
  owned : ∀ i a, σ.timers i = some a → ∃ t x h, L t = some x ∧ Owns σ i t a h
  inj : Exclusive σ.timers
  ids : Exclusive (Option.map Entry.id ∘ L)

/-- What the counter of a timer and its being armed have to do with the messages it has
posted. -/
structure Entry.Counts (x : Entry w) (repeats : Int) (armed : Bool) : Prop where
  forever : x.repeats = -1 → repeats = -1 ∧ armed = true
  finite : 0 ≤ x.repeats → repeats = max (x.repeats - x.posted) 0 ∧ x.posted ≤ x.repeats + 1 ∧
    (armed = true ↔ x.posted ≤ x.repeats)
  once : x.repeats < -1 → repeats = x.repeats ∧ x.posted ≤ 1 ∧ (armed = true ↔ x.posted = 0)

theorem Entry.counts_start (id : SizeT w) (repeats : Int) :
    (⟨id, repeats, 0⟩ : Entry w).Counts repeats true := by
  constructor
  · intro h
    exact ⟨h, rfl⟩
  · intro h
    dsimp only at h ⊢
    simp only [true_iff]
    omega
  · intro h
    simp

/-- A timer that fires counts down, and is armed again unless it was the last time. -/
theorem Entry.Counts.fire {x : Entry w} {repeats : Int} (h : x.Counts repeats true) {msg : Msg}
    (hmsg : msg.arg1 = toInt x.id) :
    (x.count msg).Counts (if repeats > 0 then repeats - 1 else repeats)
      (decide (repeats > 0 ∨ repeats = -1)) := by
  obtain ⟨hforever, hfinite, honce⟩ := h
  rw [Entry.count, if_pos hmsg]
  constructor
  · intro hx
    dsimp only at hx ⊢
    obtain ⟨rfl, -⟩ := hforever hx
    simp
  · intro hx
    dsimp only at hx ⊢
    obtain ⟨hrep, -, harmed⟩ := hfinite hx
    simp only [true_iff] at harmed
    rw [decide_eq_true_iff]
    push_cast
    split <;> omega
  · intro hx
    dsimp only at hx ⊢
    obtain ⟨hrep, -, harmed⟩ := honce hx
    simp only [true_iff] at harmed
    rw [decide_eq_true_iff]
    split <;> omega

namespace Table

variable {L : Ledger w} {σ : State w} {i j : Fin timerIdMax} {t v : TimerPtr} {a b : Addr}
  {h k : UvTimer w} {x : Entry w}

theorem slot_unique (H : Table L σ) (hi : Owns σ i t a h) (hj : Owns σ j t b k) :
    i = j ∧ a = b ∧ h = k := by
  obtain rfl : a = b := Option.some.inj (hi.osTimer.symm.trans hj.osTimer)
  exact ⟨H.inj hi.slot hj.slot, rfl, Option.some.inj (hi.block.symm.trans hj.block)⟩

theorem owner_unique (hi : Owns σ i t a h) (hj : Owns σ j v a k) : t = v := by
  have hk : h = k := Option.some.inj (hi.block.symm.trans hj.block)
  subst hk
  exact Option.some.inj (hi.data.symm.trans hj.data)

/-- The test of a slot. -/
theorem slotById_eq_some (H : Table L σ) {id : SizeT w} :
    σ.slotById id i = some (a, h) ↔ ∃ t x, L t = some x ∧ x.id = id ∧ Owns σ i t a h := by
  constructor
  · intro hslot
    simp only [State.slotById, Option.bind_eq_bind, Option.bind_eq_some_iff,
      Option.ite_none_right_eq_some, Option.some.injEq, Prod.mk.injEq] at hslot
    obtain ⟨a', ha, h', hh, timer, hdata, hid, rfl, rfl⟩ := hslot
    obtain ⟨t, x, k, hx, howns⟩ := H.owned i a' ha
    obtain rfl : h' = k := Option.some.inj (hh.symm.trans howns.block)
    obtain rfl : timer = t := Option.some.inj (hdata.symm.trans howns.data)
    obtain ⟨_, _, _, -, hid'⟩ := H.owns timer x hx
    exact ⟨timer, x, hx, hid'.symm.trans hid, howns⟩
  · rintro ⟨t, x, hx, hid, howns⟩
    obtain ⟨_, _, _, -, hid'⟩ := H.owns t x hx
    simp [State.slotById, howns.slot, howns.block, howns.data, hid', hid]

/-- **The search by id** finds the timer with that id, if there is one. -/
theorem getTimerById_eq_some (H : Table L σ) {id : SizeT w} :
    σ.getTimerById id = some (a, h) ↔ ∃ i t x, L t = some x ∧ x.id = id ∧ Owns σ i t a h := by
  constructor
  · intro hget
    obtain ⟨i, hslot, -⟩ := Fin.findSome?_eq_some_iff.1 hget
    exact ⟨i, H.slotById_eq_some.1 hslot⟩
  · rintro ⟨i, t, x, hx, hid, howns⟩
    refine findSome_of_unique (H.slotById_eq_some.2 ⟨t, x, hx, hid, howns⟩) ?_
    rintro j ⟨b, k⟩ hj
    obtain ⟨v, y, hy, hid', howns'⟩ := H.slotById_eq_some.1 hj
    obtain rfl : v = t := H.ids (b := id) (by simp [hy, hid']) (by simp [hx, hid])
    exact (H.slot_unique howns' howns).1

end Table

/-! ## The invariant -/

/-- **The invariant.**  The table agrees with the ledger, only libuv timers in the table are
armed, and the counters agree with the messages. -/
structure Holds (L : Ledger w) (σ : State w) : Prop where
  timer : ∀ t x, L t = some x → ∃ i a h, Owns σ i t a h ∧ (σ.luat t).id = x.id ∧
    x.Counts (σ.luat t).repeats h.armed.isSome
  owned : ∀ i a, σ.timers i = some a → ∃ t x h, L t = some x ∧ Owns σ i t a h
  inj : Exclusive σ.timers
  ids : Exclusive (Option.map Entry.id ∘ L)
  armed : ∀ a h, σ.handles a = some h → h.armed ≠ none → ∃ i, σ.timers i = some a
  fits : ∀ t x, L t = some x → ofInt (toInt x.id) = x.id

namespace Holds

variable {L : Ledger w} {σ : State w} {i j : Fin timerIdMax} {t v : TimerPtr} {a b : Addr}
  {h k : UvTimer w} {x : Entry w}

theorem table (H : Holds L σ) : Table L σ where
  owns := by
    intro t x hx
    obtain ⟨i, a, h, howns, hid, -⟩ := H.timer t x hx
    exact ⟨i, a, h, howns, hid⟩
  owned := H.owned
  inj := H.inj
  ids := H.ids

theorem start : Holds (fun _ => none) (State.start : State w) where
  timer := by simp
  owned := by simp [State.start]
  inj := by simp [Exclusive, State.start]
  ids := by simp [Exclusive]
  armed := by simp [State.start]
  fits := by simp

/-- A block that is not in use is in no slot. -/
theorem ne_of_fresh (H : Holds L σ) (hfresh : σ.handles a = none) : σ.timers i ≠ some a := by
  intro hi
  obtain ⟨t, x, h, -, howns⟩ := H.owned i a hi
  exact absurd (hfresh.symm.trans howns.block) (by simp)

/-- The owner of a timer that is not live may write to it, if it leaves `os_timer` alone. -/
theorem setLuat (H : Holds L σ) (ht : L t = none) {y : LuatTimer w}
    (hy : y.osTimer = (σ.luat t).osTimer) : Holds L (σ.setLuat t y) := by
  have hos : ∀ v, ((σ.setLuat t y).luat v).osTimer = (σ.luat v).osTimer := by
    intro v
    by_cases hv : v = t
    · subst hv
      rw [State.setLuat_luat_self, hy]
    · rw [State.setLuat_luat_of_ne σ hv]
  have howns : ∀ {i v a h}, Owns σ i v a h → Owns (σ.setLuat t y) i v a h := by
    intro i v a h howns
    exact { howns with osTimer := (hos v).trans howns.osTimer }
  refine { H with timer := ?_, owned := ?_ }
  · intro v x hx
    obtain ⟨i, a, h, ho, hid, hcounts⟩ := H.timer v x hx
    have hv : v ≠ t := by
      rintro rfl
      exact absurd (ht.symm.trans hx) (by simp)
    rw [State.setLuat_luat_of_ne σ hv]
    exact ⟨i, a, h, howns ho, hid, hcounts⟩
  · intro i a hi
    obtain ⟨v, x, h, hx, ho⟩ := H.owned i a hi
    exact ⟨v, x, h, hx, howns ho⟩

/-- A block outside the table may change, as long as it is not armed. -/
theorem setHandle_outside (H : Holds L σ) (hout : ∀ i, σ.timers i ≠ some a)
    {h' : Option (UvTimer w)} (hidle : ∀ h ∈ h', h.armed = none) :
    Holds L (σ.setHandle a h') := by
  have howns : ∀ {i v b k}, Owns σ i v b k → Owns (σ.setHandle a h') i v b k := by
    intro i v b k howns
    have hb : b ≠ a := by
      rintro rfl
      exact hout i howns.slot
    exact { howns with block := (σ.setHandle_handles_of_ne hb h').trans howns.block }
  refine { H with timer := ?_, owned := ?_, armed := ?_ }
  · intro v x hx
    obtain ⟨i, b, k, ho, hrest⟩ := H.timer v x hx
    exact ⟨i, b, k, howns ho, hrest⟩
  · intro i b hi
    obtain ⟨v, x, k, hx, ho⟩ := H.owned i b hi
    exact ⟨v, x, k, hx, howns ho⟩
  · intro b k hk harmed
    by_cases hb : b = a
    · subst hb
      rw [State.setHandle_handles_self] at hk
      exact absurd (hidle k hk) harmed
    · rw [State.setHandle_handles_of_ne σ hb] at hk
      exact H.armed b k hk harmed

/-- A closed block is in no slot. -/
theorem ne_of_closing (H : Holds L σ) (hh : σ.handles a = some h) (hclosing : h.closing = true) :
    σ.timers i ≠ some a := by
  intro hi
  obtain ⟨t, x, k, -, howns⟩ := H.owned i a hi
  obtain rfl : h = k := Option.some.inj (hh.symm.trans howns.block)
  exact absurd (hclosing.symm.trans howns.isOpen) (by simp)

/-- A start takes a free slot and a free block. -/
theorem enter (H : Holds L σ) (ht : L t = none) (hfree : σ.timers i = none)
    (hfresh : σ.handles a = none) (hnew : ∀ v x, L v = some x → x.id ≠ (σ.luat t).id)
    (hfits : ofInt (toInt (σ.luat t).id) = (σ.luat t).id) (timeout : SizeT w) :
    Holds (Function.update L t (some ⟨(σ.luat t).id, (σ.luat t).repeats, 0⟩))
      (((σ.setSlot i (some a)).setLuat t { σ.luat t with osTimer := some a }).setHandle a
        (some ⟨some t, some timeout, false⟩)) := by
  set σ' := ((σ.setSlot i (some a)).setLuat t { σ.luat t with osTimer := some a }).setHandle a
    (some ⟨some t, some timeout, false⟩) with hσ'
  -- the new timer, and the old ones
  have hself : Owns σ' i t a ⟨some t, some timeout, false⟩ :=
    ⟨State.setSlot_timers_self σ _, State.setHandle_handles_self _ _, rfl, rfl, by
      simp [hσ', State.setHandle]⟩
  have hluat : ∀ {v}, v ≠ t → σ'.luat v = σ.luat v := fun hv =>
    State.setLuat_luat_of_ne (σ.setSlot i (some a)) hv _
  have hslot : ∀ {j}, j ≠ i → σ'.timers j = σ.timers j := fun hj =>
    State.setSlot_timers_of_ne σ hj _
  have hne : ∀ {j b}, σ.timers j = some b → j ≠ i := by
    rintro j b hj rfl
    exact absurd (hfree.symm.trans hj) (by simp)
  have hold : ∀ {j v b k}, v ≠ t → Owns σ j v b k → Owns σ' j v b k := by
    intro j v b k hv ho
    have hb : b ≠ a := by
      rintro rfl
      exact H.ne_of_fresh hfresh ho.slot
    refine ⟨(hslot (hne ho.slot)).trans ho.slot, ?_, ho.data, ho.isOpen, ?_⟩
    · exact (State.setHandle_handles_of_ne _ hb _).trans ho.block
    · rw [hluat hv]
      exact ho.osTimer
  have hlive : ∀ {v x}, L v = some x → v ≠ t := by
    rintro v x hx rfl
    exact absurd (ht.symm.trans hx) (by simp)
  constructor
  · intro v x hx
    by_cases hv : v = t
    · subst hv
      rw [Function.update_self, Option.some.injEq] at hx
      subst hx
      refine ⟨i, a, _, hself, by simp [hσ', State.setHandle], ?_⟩
      have hrep : (σ'.luat v).repeats = (σ.luat v).repeats := by simp [hσ', State.setHandle]
      rw [hrep]
      exact Entry.counts_start _ _
    · rw [Function.update_of_ne hv] at hx
      obtain ⟨j, b, k, ho, hrest⟩ := H.timer v x hx
      rw [hluat hv]
      exact ⟨j, b, k, hold hv ho, hrest⟩
  · intro j b hj
    by_cases hji : j = i
    · subst hji
      obtain rfl : a = b := Option.some.inj (hself.slot.symm.trans hj)
      exact ⟨t, _, _, Function.update_self _ _ _, hself⟩
    · rw [hslot hji] at hj
      obtain ⟨v, x, k, hx, ho⟩ := H.owned j b hj
      exact ⟨v, x, k, (Function.update_of_ne (hlive hx) _ _).trans hx, hold (hlive hx) ho⟩
  · exact H.inj.insert fun j => H.ne_of_fresh hfresh
  · rw [Function.comp_update]
    refine H.ids.insert ?_
    intro v hv
    obtain ⟨x, hx, hid⟩ := Option.map_eq_some_iff.1 hv
    exact hnew v x hx hid
  · intro b k hk harmed
    by_cases hb : b = a
    · subst hb
      exact ⟨i, hself.slot⟩
    · obtain ⟨j, hj⟩ := H.armed b k ((State.setHandle_handles_of_ne _ hb _).symm.trans hk) harmed
      exact ⟨j, (hslot (hne hj)).trans hj⟩
  · intro v x hx
    by_cases hv : v = t
    · subst hv
      rw [Function.update_self, Option.some.injEq] at hx
      subst hx
      exact hfits
    · rw [Function.update_of_ne hv] at hx
      exact H.fits v x hx

/-- A stop of a live timer closes its block and frees its slot. -/
theorem leave (H : Holds L σ) (howns : Owns σ i t a h) :
    Holds (Function.update L t none) ((σ.setHandle a (some h.uvClose)).setSlot i none) := by
  set σ' := (σ.setHandle a (some h.uvClose)).setSlot i none
  have hslot : ∀ {j}, j ≠ i → σ'.timers j = σ.timers j := fun hj =>
    State.setSlot_timers_of_ne (σ.setHandle a (some h.uvClose)) hj _
  have hself : σ'.timers i = none := State.setSlot_timers_self _ _
  -- another slot points to another block
  have hother : ∀ {j v b k}, j ≠ i → Owns σ j v b k → Owns σ' j v b k := by
    intro j v b k hj ho
    have hb : b ≠ a := by
      rintro rfl
      exact hj (H.inj ho.slot howns.slot)
    exact ⟨(hslot hj).trans ho.slot, (State.setHandle_handles_of_ne σ hb _).trans ho.block, ho.data,
      ho.isOpen, ho.osTimer⟩
  have hslot_ne : ∀ {j v b k}, v ≠ t → Owns σ j v b k → j ≠ i := by
    rintro j v b k hv ho rfl
    obtain rfl : b = a := Option.some.inj (ho.slot.symm.trans howns.slot)
    exact hv (Table.owner_unique ho howns)
  have hsub : ∀ {v x}, Function.update L t none v = some x → v ≠ t ∧ L v = some x := by
    intro v x hx
    by_cases hv : v = t
    · rw [hv, Function.update_self] at hx
      cases hx
    · rw [Function.update_of_ne hv] at hx
      exact ⟨hv, hx⟩
  constructor
  · intro v x hx
    obtain ⟨hv, hx⟩ := hsub hx
    obtain ⟨j, b, k, ho, hrest⟩ := H.timer v x hx
    exact ⟨j, b, k, hother (hslot_ne hv ho) ho, hrest⟩
  · intro j b hj
    have hji : j ≠ i := by
      rintro rfl
      exact absurd (hself.symm.trans hj) (by simp)
    rw [hslot hji] at hj
    obtain ⟨v, x, k, hx, ho⟩ := H.owned j b hj
    have hv : v ≠ t := by
      rintro rfl
      exact hji (H.table.slot_unique ho howns).1
    exact ⟨v, x, k, (Function.update_of_ne hv _ _).trans hx, hother hji ho⟩
  · exact H.inj.erase i
  · rw [Function.comp_update]
    exact H.ids.erase t
  · intro b k hk harmed
    by_cases hb : b = a
    · subst hb
      have hk' : some h.uvClose = some k := (State.setHandle_handles_self σ _).symm.trans hk
      cases hk'
      exact absurd rfl harmed
    · have hk' : σ.handles b = some k := (State.setHandle_handles_of_ne σ hb _).symm.trans hk
      obtain ⟨j, hj⟩ := H.armed b k hk' harmed
      have hji : j ≠ i := by
        rintro rfl
        exact hb (Option.some.inj (hj.symm.trans howns.slot))
      exact ⟨j, (hslot hji).trans hj⟩
  · intro v x hx
    exact H.fits v x (hsub hx).2

/-- A message with the id of a live timer counts for this timer only. -/
theorem count_other (H : Holds L σ) {y : Entry w} (hx : L t = some x) (hy : L v = some y)
    (hv : v ≠ t) {msg : Msg} (hmsg : msg.arg1 = toInt x.id) : y.count msg = y := by
  refine if_neg ?_
  intro heq
  have hid : y.id = x.id := by
    rw [← H.fits v y hy, ← heq, hmsg, H.fits t x hx]
  exact hv (H.ids (b := x.id) (by simp [hy, hid]) (by simp [hx]))

/-- A live timer fires: its block is armed again or not, and its counter goes down or not,
as the number of messages requires. -/
theorem fired (H : Holds L σ) (hx : L t = some x) (howns : Owns σ i t a h) {h' : UvTimer w}
    (hdata : h'.data = h.data) (hclosing : h'.closing = h.closing) {y : LuatTimer w}
    (hid : y.id = (σ.luat t).id) (hos : y.osTimer = (σ.luat t).osTimer) {msg : Msg}
    (hmsg : msg.arg1 = toInt x.id) (hcounts : (x.count msg).Counts y.repeats h'.armed.isSome) :
    Holds (fun v => (L v).map fun x => x.count msg) ((σ.setHandle a (some h')).setLuat t y) := by
  set σ' := (σ.setHandle a (some h')).setLuat t y
  have hself : Owns σ' i t a h' :=
    ⟨howns.slot, State.setHandle_handles_self σ _, hdata.trans howns.data,
      hclosing.trans howns.isOpen, by
        rw [State.setLuat_luat_self, hos]
        exact howns.osTimer⟩
  have hother : ∀ {j v b k}, v ≠ t → Owns σ j v b k → Owns σ' j v b k := by
    intro j v b k hv ho
    have hb : b ≠ a := by
      rintro rfl
      exact hv (Table.owner_unique ho howns)
    refine ⟨ho.slot, (State.setHandle_handles_of_ne σ hb _).trans ho.block, ho.data, ho.isOpen, ?_⟩
    rw [State.setLuat_luat_of_ne _ hv]
    exact ho.osTimer
  have hcount : ∀ z : Entry w, (z.count msg).id = z.id := by
    intro z
    unfold Entry.count
    split <;> rfl
  constructor
  · intro v z hz
    obtain ⟨z₀, hz₀, rfl⟩ := Option.map_eq_some_iff.1 hz
    by_cases hv : v = t
    · subst hv
      obtain rfl : x = z₀ := Option.some.inj (hx.symm.trans hz₀)
      obtain ⟨_, _, _, -, hid', -⟩ := H.timer v x hx
      refine ⟨i, a, h', hself, ?_, ?_⟩
      · rw [State.setLuat_luat_self, hid, hid', hcount]
      · rw [State.setLuat_luat_self]
        exact hcounts
    · obtain ⟨j, b, k, ho, hrest⟩ := H.timer v z₀ hz₀
      rw [H.count_other hx hz₀ hv hmsg, State.setLuat_luat_of_ne _ hv]
      exact ⟨j, b, k, hother hv ho, hrest⟩
  · intro j b hj
    obtain ⟨v, z, k, hz, ho⟩ := H.owned j b hj
    by_cases hv : v = t
    · subst hv
      obtain ⟨rfl, rfl, -⟩ := H.table.slot_unique ho howns
      exact ⟨v, _, h', by rw [hz, Option.map_some], hself⟩
    · exact ⟨v, _, k, by rw [hz, Option.map_some], hother hv ho⟩
  · exact H.inj
  · have hids : Option.map Entry.id ∘ (fun v => (L v).map fun x => x.count msg) =
        Option.map Entry.id ∘ L := by
      funext v
      cases hv : L v with
      | none => simp [hv]
      | some z => simp [hv, hcount]
    rw [hids]
    exact H.ids
  · intro b k hk harmed
    by_cases hb : b = a
    · rw [hb]
      exact ⟨i, howns.slot⟩
    · exact H.armed b k ((State.setHandle_handles_of_ne σ hb _).symm.trans hk) harmed
  · intro v z hz
    obtain ⟨z₀, hz₀, rfl⟩ := Option.map_eq_some_iff.1 hz
    rw [hcount]
    exact H.fits v z₀ hz₀

end Holds

/-! ## The functions under the invariant -/

section

variable {L : Ledger w} {σ : State w} {i j : Fin timerIdMax} {t v : TimerPtr} {a b : Addr}
  {h k : UvTimer w} {x : Entry w}

/-- A block may be armed or disarmed without the table noticing. -/
theorem Table.setHandle (H : Table L σ) (hh : σ.handles a = some h) {h' : UvTimer w}
    (hdata : h'.data = h.data) (hclosing : h'.closing = h.closing) :
    Table L (σ.setHandle a (some h')) := by
  have howns : ∀ {j v b k}, Owns σ j v b k → ∃ k', Owns (σ.setHandle a (some h')) j v b k' := by
    intro j v b k ho
    by_cases hb : b = a
    · subst hb
      obtain rfl : h = k := Option.some.inj (hh.symm.trans ho.block)
      exact ⟨h', ho.slot, State.setHandle_handles_self σ _, hdata.trans ho.data,
        hclosing.trans ho.isOpen, ho.osTimer⟩
    · exact ⟨k, { ho with block := (State.setHandle_handles_of_ne σ hb _).trans ho.block }⟩
  refine { H with owns := ?_, owned := ?_ }
  · intro v x hx
    obtain ⟨j, b, k, ho, hid⟩ := H.owns v x hx
    obtain ⟨k', ho'⟩ := howns ho
    exact ⟨j, b, k', ho', hid⟩
  · intro j b hj
    obtain ⟨v, x, k, hx, ho⟩ := H.owned j b hj
    obtain ⟨k', ho'⟩ := howns ho
    exact ⟨v, x, k', hx, ho'⟩

/-- The block of a live timer after it has fired. -/
def UvTimer.refired (h : UvTimer w) (x : LuatTimer w) : UvTimer w :=
  { h with armed := if x.repeats > 0 ∨ x.repeats = -1 then some x.timeout else none }

/-- A live timer after it has fired. -/
def LuatTimer.refired (x : LuatTimer w) : LuatTimer w :=
  { x with repeats := if x.repeats > 0 then x.repeats - 1 else x.repeats }

/-- **An expiry** finds the timer that has fired, and only this one changes. -/
theorem timerCb_spec (H : Holds L σ) (hx : L t = some x) (howns : Owns σ i t a h) :
    (σ.setHandle a (some h.uvTimerStop)).timerCb h.uvTimerStop =
      ((σ.setHandle a (some (h.refired (σ.luat t)))).setLuat t (σ.luat t).refired,
        .posted ⟨(σ.luat t).func, none, toInt x.id, 0⟩) := by
  set σ₁ := σ.setHandle a (some h.uvTimerStop) with hσ₁
  obtain ⟨_, _, _, -, hid, -⟩ := H.timer t x hx
  have howns₁ : Owns σ₁ i t a h.uvTimerStop :=
    ⟨howns.slot, State.setHandle_handles_self σ _, howns.data, howns.isOpen, howns.osTimer⟩
  have htable : Table L σ₁ := H.table.setHandle howns.block rfl rfl
  have hget : σ₁.getTimerById (ofInt (toInt x.id)) = some (a, h.uvTimerStop) :=
    htable.getTimerById_eq_some.2 ⟨i, t, x, hx, (H.fits t x hx).symm, howns₁⟩
  have hstart : (h.uvTimerStop.uvTimerStart (σ.luat t).timeout).1 =
      { h with armed := some (σ.luat t).timeout } := by
    simp [UvTimer.uvTimerStart, UvTimer.uvTimerStop, howns.isOpen]
  -- to arm the block again overwrites the stop
  have hagain : σ₁.setHandle a (some { h with armed := some (σ.luat t).timeout }) =
      σ.setHandle a (some { h with armed := some (σ.luat t).timeout }) := by
    simp [hσ₁, State.setHandle]
  have hsame : ∀ σ₂ : State w, σ₂.luat = σ.luat → σ₂.setLuat t (σ.luat t) = σ₂ := by
    intro σ₂ hluat
    rw [State.setLuat, ← hluat, Function.update_eq_self]
  have hluat : σ₁.luat t = σ.luat t := rfl
  unfold State.timerCb
  simp only [howns₁.data, hluat, hid, hget, hstart]
  refine Prod.ext ?_ rfl
  dsimp only
  by_cases hpos : (σ.luat t).repeats > 0
  · rw [if_pos hpos, hagain, UvTimer.refired, LuatTimer.refired, if_pos (Or.inl hpos),
      if_pos hpos, hid]
  · have hrefired : (σ.luat t).refired = σ.luat t := by
      rw [LuatTimer.refired, if_neg hpos]
    rw [if_neg hpos, hrefired, hsame (σ.setHandle a _) rfl]
    by_cases hever : (σ.luat t).repeats = -1
    · rw [if_pos hever, hagain, UvTimer.refired, if_pos (Or.inr hever)]
    · rw [if_neg hever, UvTimer.refired, if_neg (not_or.2 ⟨hpos, hever⟩)]
      rfl

/-- An armed block belongs to a live timer. -/
theorem Holds.of_armed (H : Holds L σ) (hh : σ.handles a = some h) (harmed : h.armed ≠ none) :
    ∃ i t x, L t = some x ∧ Owns σ i t a h := by
  obtain ⟨i, hi⟩ := H.armed a h hh harmed
  obtain ⟨t, x, k, hx, howns⟩ := H.owned i a hi
  obtain rfl : h = k := Option.some.inj (hh.symm.trans howns.block)
  exact ⟨i, t, x, hx, howns⟩

/-- A stop of a live timer. -/
theorem luatTimerStop_of_owns (H : Holds L σ) (howns : Owns σ i t a h) :
    σ.luatTimerStop t = ((σ.setHandle a (some h.uvClose)).setSlot i none, .ret 0) := by
  have hfind : (Fin.find? fun j => decide (some a = σ.timers j)) = some i := by
    refine find_of_unique (by simp [howns.slot]) ?_
    intro j hj
    exact H.inj (of_decide_eq_true hj).symm howns.slot
  unfold State.luatTimerStop
  simp only [howns.osTimer, hfind, howns.block, Option.map_some]

/-- A stop of a timer whose block is not in the table. -/
theorem luatTimerStop_of_gone (hos : (σ.luat t).osTimer = some a)
    (hgone : ∀ i, σ.timers i ≠ some a) : σ.luatTimerStop t = (σ, .ret (-1)) := by
  have hfind : (Fin.find? fun j => decide (some a = σ.timers j)) = none := by
    rw [Fin.find?_eq_none_iff]
    intro j
    exact decide_eq_false fun hj => hgone j hj.symm
  unfold State.luatTimerStop
  simp only [hos, hfind]

theorem luatTimerStart_of_none (hfree : σ.getFreeTimerId = none) (initRet : Int) :
    σ.luatTimerStart t a initRet = (σ, -1) := by
  unfold State.luatTimerStart
  rw [hfree]

theorem luatTimerStart_of_some (hfree : σ.getFreeTimerId = some i) (initRet : Int) :
    σ.luatTimerStart t a initRet =
      if initRet ≠ 0 then (σ.setHandle a (some ⟨none, none, true⟩), -1)
      else (((σ.setSlot i (some a)).setLuat t { σ.luat t with osTimer := some a }).setHandle a
        (some ⟨some t, some (σ.luat t).timeout, false⟩), 0) := by
  unfold State.luatTimerStart
  rw [hfree]
  rfl

theorem getFreeTimerId_eq_some (hi : σ.getFreeTimerId = some i) : σ.timers i = none := by
  unfold State.getFreeTimerId at hi
  simpa using (Fin.find?_eq_some_iff.1 hi).1

/-- **The table is full** if and only if 1024 timers are live. -/
theorem getFreeTimerId_eq_none_iff (H : Table L σ) :
    σ.getFreeTimerId = none ↔ L.live.ncard = timerIdMax := by
  -- the owner of a slot
  let owner : Fin timerIdMax → Option TimerPtr := fun i =>
    ((σ.timers i).bind σ.handles).bind UvTimer.data
  have howner : ∀ {i t a h}, Owns σ i t a h → owner i = some t := by
    intro i t a h ho
    simp [owner, ho.slot, ho.block, ho.data]
  have hslot : ∀ {i t}, owner i = some t → ∃ x a h, L t = some x ∧ Owns σ i t a h := by
    intro i t ht
    obtain ⟨h, hh, -⟩ := Option.bind_eq_some_iff.1 ht
    obtain ⟨a, ha, -⟩ := Option.bind_eq_some_iff.1 hh
    obtain ⟨v, x, k, hx, ho⟩ := H.owned i a ha
    obtain rfl : v = t := Option.some.inj ((howner ho).symm.trans ht)
    exact ⟨x, a, k, hx, ho⟩
  have hlive : ∀ t, t ∈ L.live ↔ ∃ i, owner i = some t := by
    intro t
    constructor
    · intro ht
      obtain ⟨x, hx⟩ := Option.ne_none_iff_exists'.1 ht
      obtain ⟨i, a, h, ho, -⟩ := H.owns t x hx
      exact ⟨i, howner ho⟩
    · rintro ⟨i, hi⟩
      obtain ⟨x, a, h, hx, -⟩ := hslot hi
      exact Option.ne_none_iff_exists'.2 ⟨x, hx⟩
  have hinj : Exclusive owner := by
    intro i j t hi hj
    obtain ⟨x, a, h, -, ho⟩ := hslot hi
    obtain ⟨y, b, k, -, ho'⟩ := hslot hj
    exact (H.slot_unique ho ho').1
  have hfull : L.live.ncard = timerIdMax ↔ ∀ i, owner i ≠ none := ncard_owners_eq_iff hlive hinj
  rw [hfull, State.getFreeTimerId, Fin.find?_eq_none_iff]
  refine forall_congr' fun i => ?_
  cases hi : σ.timers i with
  | none => simp [owner, hi]
  | some a =>
    obtain ⟨t, x, h, -, ho⟩ := H.owned i a hi
    simp [howner ho]

end

/-- What `luat_timer_get` finds. -/
theorem luatTimerGet_eq_some {L : Ledger w} {σ : State w} (H : Table L σ) {id : SizeT w}
    {t : TimerPtr} : σ.luatTimerGet id = some t ↔ ∃ x, L t = some x ∧ x.id = id := by
  unfold State.luatTimerGet
  rw [Option.bind_eq_some_iff]
  constructor
  · rintro ⟨⟨a, h⟩, hget, hdata⟩
    obtain ⟨i, v, x, hx, hid, howns⟩ := H.getTimerById_eq_some.1 hget
    obtain rfl : v = t := Option.some.inj (howns.data.symm.trans hdata)
    exact ⟨x, hx, hid⟩
  · rintro ⟨x, hx, hid⟩
    obtain ⟨i, a, h, howns, -⟩ := H.owns t x hx
    exact ⟨(a, h), H.getTimerById_eq_some.2 ⟨i, t, x, hx, hid, howns⟩, howns.data⟩

/-! ## Steps and runs -/

/-- What a call returns and an expiry does, as the ledger has it. -/
def Meets (L : Ledger w) (e : Trans w) : Prop :=
  match e.act with
  | .luatTimerStart _ _ _ initRet =>
    initRet = 0 → (e.out = .ret 0 ∨ e.out = .ret (-1)) ∧
      (e.out = .ret (-1) ↔ L.live.ncard = timerIdMax)
  | .luatTimerStop t =>
    L t ≠ none → e.out = .ret 0 ∧ ∃ i a h, Owns e.src i t a h ∧
      e.dst.timers = Function.update e.src.timers i none
  | .luatTimerGet timerId =>
    ∃ found, e.out = .got found ∧ ∀ t, found = some t ↔ ∃ x, L t = some x ∧ x.id = timerId
  | .expire a =>
    ∃ i t h x, L t = some x ∧ Owns e.src i t a h ∧
      e.out = .posted ⟨(e.src.luat t).func, none, toInt x.id, 0⟩ ∧
      ∀ b ≠ a, e.dst.handles b = e.src.handles b
  | .onFree _ => True

section

variable {L : Ledger w} {σ σ' : State w} {o : Answer}

theorem step_start (H : Holds L σ) {t : TimerPtr} {setup : Setup w} {a : Addr} {initRet : Int}
    (h : step σ (.luatTimerStart t setup a initRet) = some (σ', o))
    (hadm : Admitted L (.luatTimerStart t setup a initRet))
    (hsafe : Safe L σ (.luatTimerStart t setup a initRet)) :
    Holds (L.next ⟨σ, .luatTimerStart t setup a initRet, o, σ'⟩) σ' ∧
      Meets L ⟨σ, .luatTimerStart t setup a initRet, o, σ'⟩ := by
  obtain ⟨hnone, hnew⟩ := hadm
  simp only [step, Option.ite_none_right_eq_some, Option.some.injEq, Prod.mk.injEq] at h
  obtain ⟨hfresh, rfl, rfl⟩ := h
  set σ₀ := σ.setLuat t { σ.luat t with toSetup := setup }
  have H₀ : Holds L σ₀ := H.setLuat hnone rfl
  have hluat : σ₀.luat t = { σ.luat t with toSetup := setup } := State.setLuat_luat_self σ _
  have hfresh₀ : σ₀.handles a = none := hfresh
  cases hfree : σ₀.getFreeTimerId with
  | none =>
    rw [luatTimerStart_of_none hfree]
    refine ⟨H₀, fun _ => ⟨Or.inr rfl, iff_of_true rfl ?_⟩⟩
    exact (getFreeTimerId_eq_none_iff H₀.table).1 hfree
  | some i =>
    have hslot := getFreeTimerId_eq_some hfree
    by_cases hinit : initRet = 0
    · subst hinit
      rw [luatTimerStart_of_some hfree, if_neg (not_not.2 rfl)]
      have henter := H₀.enter hnone hslot hfresh₀ (by rw [hluat]; exact hnew)
        (by rw [hluat]; exact hsafe) (σ₀.luat t).timeout
      refine ⟨?_, fun _ => ⟨Or.inl rfl, iff_of_false (by simp) ?_⟩⟩
      · have hnext : ((⟨(σ₀.luat t).id, (σ₀.luat t).repeats, 0⟩ : Entry w)) =
            ⟨setup.id, setup.repeats, 0⟩ := by
          rw [hluat]
        rw [hnext] at henter
        exact henter
      · rw [← getFreeTimerId_eq_none_iff H₀.table, hfree]
        simp
    · rw [luatTimerStart_of_some hfree, if_pos hinit]
      refine ⟨?_, fun hzero => absurd hzero hinit⟩
      refine H₀.setHandle_outside (fun i => H₀.ne_of_fresh hfresh₀) ?_
      rintro h ⟨⟩
      rfl

theorem step_stop (H : Holds L σ) {t : TimerPtr}
    (h : step σ (.luatTimerStop t) = some (σ', o)) (hsafe : Safe L σ (.luatTimerStop t)) :
    Holds (L.next ⟨σ, .luatTimerStop t, o, σ'⟩) σ' ∧ Meets L ⟨σ, .luatTimerStop t, o, σ'⟩ := by
  simp only [step, Option.some.injEq] at h
  cases ht : L t with
  | some x =>
    obtain ⟨i, a, k, howns, -⟩ := H.timer t x ht
    rw [luatTimerStop_of_owns H howns, Prod.mk.injEq] at h
    obtain ⟨rfl, rfl⟩ := h
    exact ⟨H.leave howns, fun _ => ⟨rfl, i, a, k, howns, rfl⟩⟩
  | none =>
    obtain ⟨a, hos, hgone⟩ := hsafe.resolve_left (not_not.2 ht)
    rw [luatTimerStop_of_gone hos hgone, Prod.mk.injEq] at h
    obtain ⟨rfl, rfl⟩ := h
    refine ⟨?_, fun hlive => absurd ht hlive⟩
    have hnext : L.next ⟨σ, .luatTimerStop t, .ret (-1), σ⟩ = L := by
      simp only [Ledger.next]
      rw [← ht, Function.update_eq_self]
    rw [hnext]
    exact H

theorem step_expire (H : Holds L σ) {a : Addr} (h : step σ (.expire a) = some (σ', o)) :
    Holds (L.next ⟨σ, .expire a, o, σ'⟩) σ' ∧ Meets L ⟨σ, .expire a, o, σ'⟩ := by
  simp only [step, Option.bind_eq_bind, Option.bind_eq_some_iff, Option.ite_none_right_eq_some,
    Option.some.injEq] at h
  obtain ⟨k, hk, harmed, h⟩ := h
  obtain ⟨i, t, x, hx, howns⟩ := H.of_armed hk (Option.isSome_iff_ne_none.1 harmed)
  rw [timerCb_spec H hx howns, Prod.mk.injEq] at h
  obtain ⟨rfl, rfl⟩ := h
  constructor
  · obtain ⟨j, b, k', howns', -, hcounts⟩ := H.timer t x hx
    obtain ⟨-, -, rfl⟩ := H.table.slot_unique howns howns'
    rw [harmed] at hcounts
    have harmed' : (k.refired (σ.luat t)).armed.isSome =
        decide ((σ.luat t).repeats > 0 ∨ (σ.luat t).repeats = -1) := by
      unfold UvTimer.refired
      split <;> simp_all
    have hmsg : (⟨(σ.luat t).func, none, toInt x.id, 0⟩ : Msg).arg1 = toInt x.id := rfl
    have hdata : (k.refired (σ.luat t)).data = k.data := rfl
    have hid : (σ.luat t).refired.id = (σ.luat t).id := rfl
    refine H.fired hx howns hdata rfl hid rfl hmsg ?_
    rw [harmed']
    exact hcounts.fire hmsg
  · refine ⟨i, t, k, x, hx, howns, rfl, ?_⟩
    intro b hb
    exact State.setHandle_handles_of_ne σ hb _

/-- **One step** keeps the invariant, and does what it should. -/
theorem step_holds (H : Holds L σ) {a : Act w} (h : step σ a = some (σ', o))
    (hadm : Admitted L a) (hsafe : Safe L σ a) :
    Holds (L.next ⟨σ, a, o, σ'⟩) σ' ∧ Meets L ⟨σ, a, o, σ'⟩ := by
  cases a with
  | luatTimerStart t setup a initRet => exact step_start H h hadm hsafe
  | luatTimerStop t => exact step_stop H h hsafe
  | luatTimerGet timerId =>
    simp only [step, Option.some.injEq, Prod.mk.injEq] at h
    obtain ⟨rfl, rfl⟩ := h
    exact ⟨H, _, rfl, fun t => luatTimerGet_eq_some H.table⟩
  | expire a => exact step_expire H h
  | onFree a =>
    simp only [step, Option.bind_eq_bind, Option.bind_eq_some_iff, Option.ite_none_right_eq_some,
      Option.some.injEq, Prod.mk.injEq] at h
    obtain ⟨k, hk, hclosing, rfl, rfl⟩ := h
    refine ⟨H.setHandle_outside (fun i => H.ne_of_closing hk hclosing) ?_, trivial⟩
    rintro h ⟨⟩

end

theorem ledger_concat (tr : List (Trans w)) (e : Trans w) :
    ledger (tr ++ [e]) = (ledger tr).next e := by
  simp [ledger]

/-- The conditions under which the table is right. -/
def Proper (tr : List (Trans w)) : Prop :=
  ∀ pre e post, tr = pre ++ e :: post →
    Admitted (ledger pre) e.act ∧ Safe (ledger pre) e.src e.act

theorem holds_run {tr : List (Trans w)} {σ : State w} (h : Run (machine w) tr σ)
    (hok : Proper tr) : Holds (ledger tr) σ := by
  refine h.history_invariant (I := fun tr σ => Holds (ledger tr) σ) hok Holds.start ?_
  intro tr σ a σ' o _ H hs hC
  rw [ledger_concat]
  exact (step_holds H hs hC.1 hC.2).1

theorem meets_run {tr : List (Trans w)} {σ : State w} (h : Run (machine w) tr σ)
    (hok : Proper tr) {pre post : List (Trans w)} {e : Trans w} (he : tr = pre ++ e :: post) :
    Meets (ledger pre) e := by
  obtain ⟨hpre, hstep⟩ := h.split he
  have hok' : Proper pre := by
    intro pre' e' post' he'
    exact hok pre' e' (post' ++ e :: post) (by rw [he, he']; simp)
  obtain ⟨hadm, hsafe⟩ := hok pre e post he
  exact (step_holds (holds_run hpre hok') hstep hadm hsafe).2

/-- **The table of timers.**  In every run in which the ids of live timers are distinct, a
timer is stopped before it is started again, ids survive the conversion to `int`, and no
timer is stopped whose block has passed to another one: every live timer owns one slot, a
search by id finds the live timer with this id, every call and every expiry does what it
should, and a live timer has posted as many messages as its counter says, and is armed as
long as there are more to come. -/
theorem timer_table {tr : List (Trans w)} {σ : State w} (h : Run (machine w) tr σ)
    (hok : Proper tr) :
    (∀ t ∈ (ledger tr).live, ∃! i, ∃ a h, Owns σ i t a h) ∧
    (∀ id t, σ.luatTimerGet id = some t ↔ ∃ x, ledger tr t = some x ∧ x.id = id) ∧
    (∀ t x, ledger tr t = some x → ∃ i a h, Owns σ i t a h ∧
      x.Counts (σ.luat t).repeats h.armed.isSome ∧
      (h.armed.isSome = true → (step σ (.expire a)).isSome = true)) ∧
    ∀ pre e post, tr = pre ++ e :: post → Meets (ledger pre) e := by
  have H := holds_run h hok
  refine ⟨?_, fun id t => luatTimerGet_eq_some H.table, ?_, fun pre e post he =>
    meets_run h hok he⟩
  · intro t ht
    obtain ⟨x, hx⟩ := Option.ne_none_iff_exists'.1 ht
    obtain ⟨i, a, k, howns, -⟩ := H.timer t x hx
    refine ⟨i, ⟨a, k, howns⟩, ?_⟩
    rintro j ⟨b, k', howns'⟩
    exact (H.table.slot_unique howns' howns).1
  · intro t x hx
    obtain ⟨i, a, k, howns, -, hcounts⟩ := H.timer t x hx
    refine ⟨i, a, k, howns, hcounts, ?_⟩
    intro harmed
    simp [step, howns.block, harmed]

/-- A timer with one repetition is started and fires twice. -/
def twiceOps : List (Act .eight) :=
  [.luatTimerStart 1 ⟨10, 100, 1, 7⟩ 50 0, .expire 50, .expire 50]

theorem timer_table_twice :
    ledger ((machine .eight).traceOf twiceOps) 1 = some ⟨10, 1, 2⟩ ∧
      ∃ i a h, Owns ((machine .eight).stateOf twiceOps) i 1 a h ∧ h.armed = none := by
  have hrun : Run (machine .eight) ((machine .eight).traceOf twiceOps)
      ((machine .eight).stateOf twiceOps) := Machine.run_exec (by decide +kernel)
  have hledger : ledger ((machine .eight).traceOf twiceOps) 1 = some ⟨10, 1, 2⟩ := by
    decide +kernel
  -- there is one start, and it comes first
  have hok : Proper ((machine .eight).traceOf twiceOps) := by
    intro pre e post he
    cases pre with
    | nil =>
      have hmem : e.act ∈ twiceOps := Machine.act_mem_of_mem_traceOf (by rw [he]; simp)
      simp only [twiceOps, List.mem_cons, List.not_mem_nil, or_false] at hmem
      obtain hact | hact | hact := hmem
      · rw [hact]
        refine ⟨⟨rfl, ?_⟩, ?_⟩
        · rintro v x ⟨⟩
        · show ofInt (toInt (10 : SizeT .eight)) = 10
          decide
      · rw [hact]
        exact ⟨trivial, trivial⟩
      · rw [hact]
        exact ⟨trivial, trivial⟩
    | cons f pre =>
      have hmem : e.act ∈ twiceOps.drop 1 := Machine.act_mem_of_mem_drop (by rw [he]; simp)
      simp only [twiceOps, List.drop_succ_cons, List.drop_zero, List.mem_cons, List.not_mem_nil,
        or_false, or_self] at hmem
      rw [hmem]
      exact ⟨trivial, trivial⟩
  obtain ⟨i, a, h, howns, hcounts, -⟩ := (timer_table hrun hok).2.2.1 1 _ hledger
  have hidle := (hcounts.finite (by decide)).2.2.not.2 (by decide)
  exact ⟨hledger, i, a, h, howns, by simpa using hidle⟩

/-- Timer 1 is stopped twice; in between its block is freed and given to timer 2. -/
def stopTwiceOps : List (Act .eight) :=
  [.luatTimerStart 1 ⟨10, 100, 0, 7⟩ 50 0, .luatTimerStop 1, .onFree 50,
    .luatTimerStart 2 ⟨11, 100, 0, 7⟩ 50 0, .luatTimerStop 1]

/-- A timer whose id does not fit an `int` expires. -/
def largeIdOps : List (Act .eight) :=
  [.luatTimerStart 1 ⟨0x80000000, 100, 0, 7⟩ 50 0, .expire 50]

/-- The second stop frees the slot of timer 2, which is live; the timer with the large id
posts no message. -/
theorem timer_table_broken :
    Run (machine .eight) ((machine .eight).traceOf stopTwiceOps)
      ((machine .eight).stateOf stopTwiceOps) ∧
    ((machine .eight).traceOf stopTwiceOps).map Transition.out =
      [.ret 0, .ret 0, .nothing, .ret 0, .ret 0] ∧
    ledger ((machine .eight).traceOf stopTwiceOps) 2 = some ⟨11, 0, 0⟩ ∧
    ((machine .eight).stateOf stopTwiceOps).luatTimerGet 11 = none ∧
    Run (machine .eight) ((machine .eight).traceOf largeIdOps)
      ((machine .eight).stateOf largeIdOps) ∧
    ((machine .eight).traceOf largeIdOps).map Transition.out = [.ret 0, .nothing] :=
  ⟨Machine.run_exec (by decide +kernel), by decide +kernel, by decide +kernel, by decide +kernel,
    Machine.run_exec (by decide +kernel), by decide +kernel⟩

end LuatosPc.Rtos.Timer
