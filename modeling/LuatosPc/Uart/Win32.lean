import LuatosPc.Base.Machine
import LuatosPc.Base.Mutex

/-!
# The serial ports of the Windows backend

A model of `win32/rust_uart/src/lib.rs`: six maps from port numbers, each behind
a mutex of its own, the calls that the simulator makes, and the worker thread
that every successful open leaves behind.  A step of a thread is one lock, one
unlock, or one step outside the mutexes; what the code does under a guard happens
in the step that takes it.  A guard bound by `let map = &mut *X.lock().unwrap()`
lives to the end of its block, and guards are dropped in the reverse of the order
in which they were bound.

* `Lock`, `Maps` — the six mutexes and what is behind them.
* `Pc` — where a thread stands; `Pc.wants`, `Pc.holds`, `Pc.drops` — which mutex
  it locks next, which ones it holds, which one it unlocks next.
* `Pc.locked`, `Pc.dropped` — what happens in these two steps.
* `State`, `Act`, `step`, `machine` — all threads together.

The names of the ports, the baud rate and the like go to the serial port; what it
answers is an argument of the actions.  Lengths are taken to fit an `i32`: beyond
that `len.try_into().unwrap()` of a read or a send panics under its guards.
-/

namespace LuatosPc
namespace Uart

/-- A port number, an `i32`. -/
abbrev Port := Int32

/-- A thread. -/
abbrev Thread := Nat

/-- A callback, of which only the identity matters here. -/
abbrev RecvCB := Nat

/-- The mutexes. -/
inductive Lock
  | uartIsClosed
  | uartRecvCb
  | uartSentCb
  | uartWaitSend
  | uartWaitSendData
  | uartBuff
  deriving DecidableEq, Repr

/-- A `HashMap<i32, α>`. -/
abbrev HashMap (α : Type) := Port → Option α

namespace HashMap

variable {α : Type}

def empty : HashMap α := fun _ => none

def insert (m : HashMap α) (port : Port) (v : α) : HashMap α := Function.update m port (some v)

def remove (m : HashMap α) (port : Port) : HashMap α := Function.update m port none

end HashMap

/-- The maps behind the mutexes. -/
structure Maps where
  uartIsClosed : HashMap Bool
  uartRecvCb : HashMap RecvCB
  uartSentCb : HashMap RecvCB
  uartWaitSend : HashMap Bool
  uartWaitSendData : HashMap (List UInt8)
  uartBuff : HashMap (List UInt8)

/-- Six empty maps. -/
def Maps.empty : Maps := ⟨.empty, .empty, .empty, .empty, .empty, .empty⟩

/-- The test of `check_port_is_open` on the map: a port is taken to be open unless
it is marked closed. -/
def Maps.checkPortIsOpen (μ : Maps) (port : Port) : Bool :=
  match μ.uartIsClosed port with
  | some true => false
  | _ => true

/-- `vec_cut`: move the bytes from `start` on to the front, then shorten. -/
def vecCut (v : List UInt8) (start : Nat) : List UInt8 :=
  ((List.range (v.length - start)).foldl (fun w i => w.set i (w.getD (i + start) 0)) v).take
    (v.length - start)

/-- Where a thread stands. -/
inductive Pc
  | idle
  /-- `luat_uart_send_extern`. -/
  | sendCheck (port : Port) (data : List UInt8)
  | sendChecked (isOpen : Bool) (port : Port) (data : List UInt8)
  | sendData (port : Port) (data : List UInt8)
  | sendFlag (port : Port) (len : Nat)
  | sendDropFlag (len : Nat)
  | sendDropData (len : Nat)
  /-- `luat_uart_read_extern`. -/
  | readCheck (port : Port) (len : Nat)
  | readChecked (isOpen : Bool) (port : Port) (len : Nat)
  | readBuff (port : Port) (len : Nat)
  | readDrop (bytes : List UInt8)
  /-- `luat_uart_close_extern`, at the block of one of the six mutexes. -/
  | closeLock (m : Lock) (port : Port)
  | closeDrop (m : Lock) (port : Port)
  /-- `luat_uart_open_extern`. -/
  | openBuff (port : Port)
  | openClosed (port : Port)
  | openDropClosed (port : Port)
  | openDropBuff (port : Port)
  | openSpawn (port : Port)
  /-- `luat_uart_recv_cb_extern`. -/
  | recvCb (port : Port) (cb : RecvCB)
  | recvCbDrop
  /-- The worker thread: at `uart.read`. -/
  | workRead (port : Port)
  /-- Its fatal read error. -/
  | workFatal (port : Port)
  /-- It holds one guard and returns. -/
  | workReturn (m : Lock)
  /-- Data came up. -/
  | workBuff (port : Port) (data : List UInt8)
  | workDropBuff (port : Port) (len : Nat)
  | workRecvCb (port : Port) (len : Nat)
  | workDropRecvCb (port : Port)
  /-- Was the port closed? -/
  | workClosed (port : Port)
  | workDropClosed (port : Port)
  /-- Is there anything to send? -/
  | workSend (port : Port)
  | workFlush (port : Port)
  | workDropData (port : Port)
  | workDropSend (port : Port)
  deriving DecidableEq, Repr

/-- The block of `luat_uart_close_extern` after the one of a given mutex. -/
def closeNext : Lock → Option Lock
  | .uartIsClosed => some .uartRecvCb
  | .uartRecvCb => some .uartSentCb
  | .uartSentCb => some .uartWaitSend
  | .uartWaitSend => some .uartWaitSendData
  | .uartWaitSendData => some .uartBuff
  | .uartBuff => none

/-- What the block of one mutex of `luat_uart_close_extern` does to its map. -/
def Maps.closePort (μ : Maps) (id : Port) : Lock → Maps
  | .uartIsClosed => { μ with uartIsClosed := HashMap.insert μ.uartIsClosed id true }
  | .uartRecvCb => { μ with uartRecvCb := HashMap.remove μ.uartRecvCb id }
  | .uartSentCb => { μ with uartSentCb := HashMap.remove μ.uartSentCb id }
  | .uartWaitSend => { μ with uartWaitSend := HashMap.remove μ.uartWaitSend id }
  | .uartWaitSendData => { μ with uartWaitSendData := HashMap.remove μ.uartWaitSendData id }
  | .uartBuff => { μ with uartBuff := HashMap.remove μ.uartBuff id }

namespace Pc

/-- The mutex a thread locks next, and waits for while another thread holds it. -/
def wants : Pc → Option Lock
  | sendCheck .. | readCheck .. | openClosed _ | workFatal _ | workClosed _ => some .uartIsClosed
  | sendData .. | workFlush _ => some .uartWaitSendData
  | sendFlag .. | workSend _ => some .uartWaitSend
  | readBuff .. | openBuff _ | workBuff .. => some .uartBuff
  | recvCb .. | workRecvCb .. => some .uartRecvCb
  | closeLock m _ => some m
  | idle | sendChecked .. | sendDropFlag _ | sendDropData _ | readChecked .. | readDrop _ => none
  | closeDrop .. | openDropClosed _ | openDropBuff _ | openSpawn _ | recvCbDrop => none
  | workRead _ | workReturn _ | workDropBuff .. | workDropRecvCb _ | workDropClosed _ => none
  | workDropData _ | workDropSend _ => none

/-- The mutexes a thread holds. -/
def holds : Pc → List Lock
  | sendChecked .. | readChecked .. | workDropClosed _ => [.uartIsClosed]
  | sendFlag .. | sendDropData _ => [.uartWaitSendData]
  | sendDropFlag _ | workDropData _ => [.uartWaitSend, .uartWaitSendData]
  | readDrop _ | openClosed _ | openDropBuff _ | workDropBuff .. => [.uartBuff]
  | openDropClosed _ => [.uartBuff, .uartIsClosed]
  | recvCbDrop | workDropRecvCb _ => [.uartRecvCb]
  | workFlush _ | workDropSend _ => [.uartWaitSend]
  | closeDrop m _ | workReturn m => [m]
  | idle | sendCheck .. | sendData .. | readCheck .. | readBuff .. | closeLock .. => []
  | openBuff _ | openSpawn _ | recvCb .. => []
  | workRead _ | workFatal _ | workBuff .. | workRecvCb .. | workClosed _ | workSend _ => []

/-- The mutex a thread unlocks next. -/
def drops : Pc → Option Lock
  | sendChecked .. | readChecked .. | openDropClosed _ | workDropClosed _ => some .uartIsClosed
  | sendDropFlag _ | workDropSend _ => some .uartWaitSend
  | sendDropData _ | workDropData _ => some .uartWaitSendData
  | readDrop _ | openDropBuff _ | workDropBuff .. => some .uartBuff
  | recvCbDrop | workDropRecvCb _ => some .uartRecvCb
  | closeDrop m _ | workReturn m => some m
  | idle | sendCheck .. | sendData .. | sendFlag .. | readCheck .. | readBuff .. => none
  | closeLock .. | openBuff _ | openClosed _ | openSpawn _ | recvCb .. => none
  | workRead _ | workFatal _ | workBuff .. | workRecvCb .. | workClosed _ => none
  | workSend _ | workFlush _ => none

end Pc

/-- What a step gives to the outside. -/
inductive Answer
  | nothing
  /-- A call returns. -/
  | returned (ret : Int)
  /-- A read returns, with the bytes stored in `buff`. -/
  | read (bytes : List UInt8)
  /-- The worker runs the receive callback of its port. -/
  | called (cb : RecvCB) (port : Port) (len : Nat)
  /-- The worker writes to the serial port, which takes the given bytes. -/
  | wrote (port : Port) (bytes : List UInt8)
  deriving DecidableEq, Repr

/-- What a thread does once it holds the mutex it was waiting for: the maps it
leaves, where it goes on, and what it gives out.  `taken` says how much of the
data the serial port takes, or that writing fails. -/
def Pc.locked (μ : Maps) (taken : Option Nat) : Pc → Maps × Pc × Answer
  | .sendCheck port data => (μ, .sendChecked (μ.checkPortIsOpen port) port data, .nothing)
  | .sendData port data =>
    let sendBuff := (μ.uartWaitSendData port).getD []
    ({ μ with uartWaitSendData := HashMap.insert μ.uartWaitSendData port (sendBuff ++ data) },
      .sendFlag port data.length, .nothing)
  | .sendFlag port len =>
    ({ μ with uartWaitSend := HashMap.insert μ.uartWaitSend port true }, .sendDropFlag len,
      .nothing)
  | .readCheck port len => (μ, .readChecked (μ.checkPortIsOpen port) port len, .nothing)
  | .readBuff port len =>
    match μ.uartBuff port with
    | none => (μ, .readDrop [], .nothing)
    | some b =>
      let n := if b.length ≥ len then len else b.length
      ({ μ with uartBuff := HashMap.insert μ.uartBuff port (vecCut b n) },
        .readDrop (b.take n), .nothing)
  | .closeLock m port => (μ.closePort port m, .closeDrop m port, .nothing)
  | .openBuff port =>
    ({ μ with uartBuff := HashMap.insert μ.uartBuff port [] }, .openClosed port, .nothing)
  | .openClosed port =>
    ({ μ with uartIsClosed := HashMap.remove μ.uartIsClosed port }, .openDropClosed port,
      .nothing)
  | .recvCb port cb =>
    ({ μ with uartRecvCb := HashMap.insert μ.uartRecvCb port cb }, .recvCbDrop, .nothing)
  | .workFatal port =>
    ({ μ with uartIsClosed := HashMap.insert μ.uartIsClosed port true },
      .workReturn .uartIsClosed, .nothing)
  | .workBuff port data =>
    match μ.uartBuff port with
    | none => (μ, .workReturn .uartBuff, .nothing)
    | some b =>
      ({ μ with uartBuff := HashMap.insert μ.uartBuff port (b ++ data) },
        .workDropBuff port data.length, .nothing)
  | .workRecvCb port len =>
    match μ.uartRecvCb port with
    | none => (μ, .workDropRecvCb port, .nothing)
    | some cb => (μ, .workDropRecvCb port, .called cb port len)
  | .workClosed port =>
    match μ.uartIsClosed port with
    | some true => (μ, .workReturn .uartIsClosed, .nothing)
    | _ => (μ, .workDropClosed port, .nothing)
  | .workSend port =>
    match μ.uartWaitSend port with
    | some true => (μ, .workFlush port, .nothing)
    | _ => (μ, .workDropSend port, .nothing)
  | .workFlush port =>
    -- both guards are held from here on, so the flag goes in the same step
    let μ' := { μ with uartWaitSend := HashMap.remove μ.uartWaitSend port }
    match μ.uartWaitSendData port with
    | none => (μ', .workDropData port, .nothing)
    | some data =>
      ({ μ' with uartWaitSendData := HashMap.insert μ.uartWaitSendData port [] },
        .workDropData port, .wrote port (data.take (taken.getD 0)))
  -- no mutex to lock
  | .idle | .sendChecked .. | .sendDropFlag _ | .sendDropData _ | .readChecked .. | .readDrop _ =>
    (μ, .idle, .nothing)
  | .closeDrop .. | .openDropClosed _ | .openDropBuff _ | .openSpawn _ | .recvCbDrop =>
    (μ, .idle, .nothing)
  | .workRead _ | .workReturn _ | .workDropBuff .. | .workDropRecvCb _ | .workDropClosed _ =>
    (μ, .idle, .nothing)
  | .workDropData _ | .workDropSend _ => (μ, .idle, .nothing)

/-- Where a thread goes on once it has unlocked a mutex, and what it gives out. -/
def Pc.dropped : Pc → Pc × Answer
  | .sendChecked isOpen port data =>
    if isOpen then (.sendData port data, .nothing) else (.idle, .returned 0)
  | .sendDropFlag len => (.sendDropData len, .nothing)
  | .sendDropData len => (.idle, .returned len)
  | .readChecked isOpen port len =>
    if isOpen then (.readBuff port len, .nothing) else (.idle, .returned 0)
  | .readDrop bytes => (.idle, .read bytes)
  | .closeDrop m port =>
    match closeNext m with
    | some m' => (.closeLock m' port, .nothing)
    | none => (.idle, .returned 0)
  | .openDropClosed port => (.openDropBuff port, .nothing)
  | .openDropBuff port => (.openSpawn port, .nothing)
  | .recvCbDrop => (.idle, .returned 0)
  | .workReturn _ => (.idle, .nothing)
  | .workDropBuff port len => (.workRecvCb port len, .nothing)
  | .workDropRecvCb port => (.workClosed port, .nothing)
  | .workDropClosed port => (.workSend port, .nothing)
  | .workDropData port => (.workDropSend port, .nothing)
  | .workDropSend port => (.workRead port, .nothing)
  -- no guard to drop
  | .idle | .sendCheck .. | .sendData .. | .sendFlag .. | .readCheck .. | .readBuff .. =>
    (.idle, .nothing)
  | .closeLock .. | .openBuff _ | .openClosed _ | .openSpawn _ | .recvCb .. => (.idle, .nothing)
  | .workRead _ | .workFatal _ | .workBuff .. | .workRecvCb .. | .workClosed _ => (.idle, .nothing)
  | .workSend _ | .workFlush _ => (.idle, .nothing)

/-- A call into the library. -/
inductive Call
  | luatUartSendExtern (port : Port) (buff : List UInt8)
  | luatUartReadExtern (port : Port) (len : Nat)
  | luatUartCloseExtern (id : Port)
  | luatUartOpenExtern (port : Port)
  | luatUartRecvCbExtern (port : Port) (cb : RecvCB)
  deriving DecidableEq, Repr

/-- Where a call begins.  An open begins once the serial port is open; if that
fails it returns 1 without touching a mutex. -/
def Call.entry : Call → Pc
  | .luatUartSendExtern port buff => .sendCheck port buff
  | .luatUartReadExtern port len => .readCheck port len
  | .luatUartCloseExtern id => .closeLock .uartIsClosed id
  | .luatUartOpenExtern port => .openBuff port
  | .luatUartRecvCbExtern port cb => .recvCb port cb

/-- What `uart.read` of a worker gives: bytes (none on a timeout), or an error that
is no timeout. -/
inductive ReadResult
  | data (bytes : List UInt8)
  | fatal
  deriving DecidableEq, Repr

/-- All threads, the mutexes and the maps. -/
structure State extends LockState Thread Lock Pc where
  maps : Maps

/-- One step of one thread. -/
inductive Act
  | call (t : Thread) (c : Call)
  | lock (t : Thread) (taken : Option Nat)
  | unlock (t : Thread)
  /-- `thread::spawn` in open: thread `u` becomes the worker. -/
  | spawn (t u : Thread)
  /-- `uart.read` of a worker returns. -/
  | uartRead (t : Thread) (r : ReadResult)
  deriving DecidableEq, Repr

/-- One step. -/
def step (σ : State) : Act → Option (State × Answer)
  | .call t c =>
    if σ.pc t = .idle then some ({ σ with toLockState := σ.move t c.entry }, .nothing) else none
  | .lock t taken =>
    match (σ.pc t).wants with
    | none => none
    | some m =>
      if σ.holder m = none then
        let r := (σ.pc t).locked σ.maps taken
        some (⟨σ.acquire t m r.2.1, r.1⟩, r.2.2)
      else none
  | .unlock t =>
    match (σ.pc t).drops with
    | none => none
    | some m =>
      let r := (σ.pc t).dropped
      some ({ σ with toLockState := σ.release t m r.1 }, r.2)
  | .spawn t u =>
    match σ.pc t with
    | .openSpawn port =>
      if σ.pc u = .idle then
        some ({ σ with toLockState := (σ.move t .idle).move u (.workRead port) }, .returned 0)
      else none
    | _ => none
  | .uartRead t r =>
    match σ.pc t with
    | .workRead port =>
      match r with
      | .fatal => some ({ σ with toLockState := σ.move t (.workFatal port) }, .nothing)
      | .data [] => some ({ σ with toLockState := σ.move t (.workClosed port) }, .nothing)
      | .data (b :: bs) =>
        some ({ σ with toLockState := σ.move t (.workBuff port (b :: bs)) }, .nothing)
    | _ => none

/-- Before the first call: no thread is anywhere, no mutex is held. -/
def State.start : State := ⟨⟨fun _ => .idle, fun _ => none⟩, .empty⟩

/-- The library under every interleaving of calls and workers. -/
def machine : Machine State Act Answer := ⟨.start, step⟩

/-- A transition of the library. -/
abbrev Trans := Transition State Act Answer

/-- The threads that take part in an action. -/
def Act.threads : Act → List Thread
  | .call t _ | .lock t _ | .unlock t | .uartRead t _ => [t]
  | .spawn t u => [t, u]

/-- The places where a thread neither waits for a mutex nor is about to unlock one. -/
def Pc.Free : Pc → Prop
  | .idle | .openSpawn _ | .workRead _ => True
  | _ => False

/-- Where `thread::spawn` and `uart.read` leave a worker. -/
def Pc.AtWork : Pc → Prop
  | .workRead _ | .workFatal _ | .workBuff .. | .workClosed _ => True
  | _ => False

/-- A lock step: the mutex was free, and the thread does what it does under it. -/
theorem step_lock_eq {σ σ' : State} {t : Thread} {taken : Option Nat} {o : Answer}
    (h : step σ (.lock t taken) = some (σ', o)) :
    ∃ m, (σ.pc t).wants = some m ∧ σ.holder m = none ∧
      σ' = ⟨σ.acquire t m ((σ.pc t).locked σ.maps taken).2.1,
        ((σ.pc t).locked σ.maps taken).1⟩ ∧
      o = ((σ.pc t).locked σ.maps taken).2.2 := by
  simp only [step] at h
  split at h
  · exact absurd h (by simp)
  · rename_i m hm
    simp only [Option.ite_none_right_eq_some, Option.some.injEq, Prod.mk.injEq] at h
    obtain ⟨hfree, rfl, rfl⟩ := h
    exact ⟨m, hm, hfree, rfl, rfl⟩

/-- What a lock step leaves of the program counters. -/
theorem pc_of_lock {σ σ' : State} {t : Thread} {taken : Option Nat} {o : Answer}
    (h : step σ (.lock t taken) = some (σ', o)) :
    σ'.pc t = ((σ.pc t).locked σ.maps taken).2.1 ∧ ∀ v ≠ t, σ'.pc v = σ.pc v := by
  obtain ⟨m, -, -, rfl, -⟩ := step_lock_eq h
  exact ⟨Function.update_self _ _ _, fun v hv => Function.update_of_ne hv _ _⟩

/-- What a lock step does to the maps. -/
theorem maps_of_lock {σ σ' : State} {t : Thread} {taken : Option Nat} {o : Answer}
    (h : step σ (.lock t taken) = some (σ', o)) :
    σ'.maps = ((σ.pc t).locked σ.maps taken).1 := by
  obtain ⟨m, -, -, rfl, -⟩ := step_lock_eq h
  rfl

/-- The maps change under a mutex only. -/
theorem maps_of_ne_lock {σ σ' : State} {a : Act} {o : Answer} (h : step σ a = some (σ', o))
    (ha : ∀ t taken, a ≠ .lock t taken) : σ'.maps = σ.maps := by
  cases a with
  | lock t taken => exact absurd rfl (ha t taken)
  | call t c =>
    simp only [step, Option.ite_none_right_eq_some] at h
    obtain ⟨-, h⟩ := h
    cases h
    rfl
  | unlock t =>
    simp only [step] at h
    split at h
    · exact absurd h (by simp)
    · cases h
      rfl
  | spawn t u =>
    simp only [step] at h
    split at h
    · simp only [Option.ite_none_right_eq_some] at h
      obtain ⟨-, h⟩ := h
      cases h
      rfl
    · exact absurd h (by simp)
  | uartRead t r =>
    simp only [step] at h
    split at h
    · split at h <;> (cases h; rfl)
    · exact absurd h (by simp)

/-- **What a step does to a thread**: nothing, if the thread has no part in it; or the
thread gets the mutex it waits for, or it unlocks one; or it stood where neither is
possible, holds nothing afterwards, and has begun a call, is done with one, or works. -/
theorem thread_step {σ σ' : State} {a : Act} {o : Answer} (h : step σ a = some (σ', o))
    (u : Thread) :
    (u ∉ a.threads ∧ σ'.pc u = σ.pc u) ∨
    (∃ taken, a = .lock u taken ∧ (σ.pc u).wants ≠ none ∧
      σ'.pc u = ((σ.pc u).locked σ.maps taken).2.1) ∨
    (a = .unlock u ∧ (σ.pc u).drops ≠ none ∧ σ'.pc u = (σ.pc u).dropped.1 ∧
      o = (σ.pc u).dropped.2) ∨
    ((σ.pc u).Free ∧ (σ'.pc u).holds = [] ∧
      ((∃ c, a = .call u c ∧ σ'.pc u = c.entry) ∨ σ'.pc u = .idle ∨ (σ'.pc u).AtWork)) := by
  cases a with
  | call t c =>
    simp only [step, Option.ite_none_right_eq_some] at h
    obtain ⟨hidle, h⟩ := h
    cases h
    by_cases hu : u = t
    · subst hu
      have hentry : (σ.move u c.entry).pc u = c.entry := Function.update_self _ _ _
      refine Or.inr (Or.inr (Or.inr ⟨by rw [hidle]; trivial, ?_, Or.inl ⟨c, rfl, hentry⟩⟩))
      rw [hentry]
      cases c <;> rfl
    · exact Or.inl ⟨by simpa [Act.threads] using hu, Function.update_of_ne hu _ _⟩
  | lock t taken =>
    by_cases hu : u = t
    · subst hu
      refine Or.inr (Or.inl ⟨taken, rfl, ?_, (pc_of_lock h).1⟩)
      intro hnone
      simp [step, hnone] at h
    · exact Or.inl ⟨by simpa [Act.threads] using hu, (pc_of_lock h).2 u hu⟩
  | unlock t =>
    simp only [step] at h
    split at h
    · exact absurd h (by simp)
    · rename_i m hm
      cases h
      by_cases hu : u = t
      · subst hu
        exact Or.inr (Or.inr (Or.inl ⟨rfl, by simp [hm], Function.update_self _ _ _, rfl⟩))
      · exact Or.inl ⟨by simpa [Act.threads] using hu, Function.update_of_ne hu _ _⟩
  | spawn t v =>
    simp only [step] at h
    split at h
    · rename_i port hpc
      simp only [Option.ite_none_right_eq_some] at h
      obtain ⟨hidle, h⟩ := h
      cases h
      by_cases hv : u = v
      · subst hv
        refine Or.inr (Or.inr (Or.inr ⟨by rw [hidle]; trivial, ?_⟩))
        simp [LockState.move, Pc.holds, Pc.AtWork]
      · by_cases hu : u = t
        · subst hu
          refine Or.inr (Or.inr (Or.inr ⟨by rw [hpc]; trivial, ?_⟩))
          simp [LockState.move, hv, Pc.holds]
        · exact Or.inl ⟨by simp [Act.threads, hu, hv], by simp [LockState.move, hu, hv]⟩
    · exact absurd h (by simp)
  | uartRead t r =>
    simp only [step] at h
    split at h
    · rename_i port hpc
      by_cases hu : u = t
      · subst hu
        refine Or.inr (Or.inr (Or.inr ⟨by rw [hpc]; trivial, ?_⟩))
        split at h <;> (cases h; simp [LockState.move, Pc.holds, Pc.AtWork])
      · refine Or.inl ⟨by simpa [Act.threads] using hu, ?_⟩
        split at h <;> (cases h; exact Function.update_of_ne hu _ _)
    · exact absurd h (by simp)

end Uart
end LuatosPc
