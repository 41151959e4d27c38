import LuatosPc.Base.Fifo
import LuatosPc.Base.Ring

/-!
# The touch panel

The model of `luat_tp_pc.c`: mouse and finger events of SDL become touch events, which are
stored twice, in a ring of eight places and in a slot for one event, and read from the ring
or, if it is empty, from the slot.

* `TpData`, `TpPcState`, `Conf` — touch events, the state of the driver, the configuration.
* `enqueueEvent`, `dequeueEvent`, `getQueueCount`, `touchEvent`, `tpSdlWatch`,
  `luatTpPcRead` and the others — the functions of the source; `Act`, `step`, `machine` —
  every order of events and calls.
* `Ready`, `queue` — a driver that is set up, and what is in its ring; `enqueue_spec`,
  `dequeue_spec`.
* `Effect`, `step_effect` — what a step does: a read takes the oldest event, or the event in
  the slot once more; `ReadsSlot` — the reads that do the latter.
* `touch_event_once` — each event is delivered at most once as long as the slot is not read.

`luat_mcu_ticks` and the product of a finger's coordinates with the size of the panel are
arguments.  The functions do nothing without a configuration, and each call is one step:
the locks are taken for parts of it, but no two calls of the driver overlap here.
-/

namespace LuatosPc.Driver.Touch

/-- `TP_EVENT_TYPE_…`. -/
inductive TpEvent
  | none
  | down
  | up
  | move
  deriving DecidableEq, Repr

/-- A `luat_tp_data_t`. -/
structure TpData where
  event : TpEvent
  trackId : UInt8
  xCoordinate : UInt16
  yCoordinate : UInt16
  width : UInt8
  timestamp : UInt32
  deriving DecidableEq, Repr

/-- A `tp_pc_state_t`, without its mutex.  The array has eight places. -/
structure TpPcState where
  hasEvent : Bool
  ev : TpData
  lastValidX : UInt16
  lastValidY : UInt16
  dataConsumed : Bool
  eventQueueSize : UInt8
  eventQueue : Nat → TpData
  queueHead : UInt8
  queueTail : UInt8
  queueEnabled : Bool

/-- The fields of a `luat_tp_config_t` that the driver uses. -/
structure Conf where
  w : Int
  h : Int
  tpNum : UInt8
  tpData : Nat → TpData

/-- The driver and its configuration. -/
structure State where
  tp : TpPcState
  conf : Conf

/-- An event of SDL.  The coordinates of a finger are those on the panel. -/
inductive SdlEvent
  | mouseButtonDown (button : UInt8) (x y : Int)
  | mouseMotion (state : UInt32) (x y : Int)
  | mouseButtonUp (button : UInt8) (x y : Int)
  | fingerDown (x y : UInt16)
  | fingerMotion (x y : UInt16)
  | fingerUp (x y : UInt16)
  | other
  deriving DecidableEq, Repr

/-- `SDL_BUTTON_LEFT`. -/
def sdlButtonLeft : UInt8 := 1

/-- `SDL_BUTTON_LMASK`. -/
def sdlButtonLmask : UInt32 := 1

/-- The conversion of an `int` to `uint16_t`. -/
def toUInt16 (x : Int) : UInt16 := UInt16.ofNat (x % 65536).toNat

/-- An event with all fields zero. -/
def TpData.zero : TpData := ⟨.none, 0, 0, 0, 0, 0⟩

namespace TpPcState

/-- The index after the given one. -/
def nextIndex (s : TpPcState) (i : UInt8) : UInt8 :=
  UInt8.ofNat ((i.toNat + 1) % s.eventQueueSize.toNat)

/-- `enqueue_event`. -/
def enqueueEvent (s : TpPcState) (event : TpData) : TpPcState × Int :=
  if s.queueEnabled then
    let nextTail := s.nextIndex s.queueTail
    let s := if nextTail = s.queueHead then { s with queueHead := s.nextIndex s.queueHead } else s
    ({ s with
        eventQueue := Function.update s.eventQueue s.queueTail.toNat event
        queueTail := nextTail }, 0)
  else (s, -1)

/-- `dequeue_event`; no event is -1. -/
def dequeueEvent (s : TpPcState) : TpPcState × Option TpData :=
  if s.queueEnabled then
    if s.queueHead = s.queueTail then (s, none)
    else ({ s with queueHead := s.nextIndex s.queueHead }, some (s.eventQueue s.queueHead.toNat))
  else (s, none)

/-- `get_queue_count`. -/
def getQueueCount (s : TpPcState) : Nat :=
  if s.queueEnabled then
    if s.queueTail ≥ s.queueHead then s.queueTail.toNat - s.queueHead.toNat
    else s.eventQueueSize.toNat - s.queueHead.toNat + s.queueTail.toNat
  else 0

/-- Note a valid position. -/
def setLastValid (s : TpPcState) (x y : UInt16) : TpPcState :=
  { s with lastValidX := x, lastValidY := y }

end TpPcState

/-- Is the position on the panel? -/
def Conf.onPanel (conf : Conf) (x y : Int) : Bool :=
  decide (0 ≤ x ∧ x < conf.w ∧ 0 ≤ y ∧ y < conf.h)

/-- The first part of `tp_sdl_watch`: the touch event, if there is one, and the last valid
position. -/
def touchEvent (conf : Conf) (s : TpPcState) (timestamp : UInt32) :
    SdlEvent → Option TpData × TpPcState
  | .mouseButtonDown button x y =>
    if button = sdlButtonLeft then
      (some ⟨.down, 0, toUInt16 x, toUInt16 y, 1, timestamp⟩,
        s.setLastValid (toUInt16 x) (toUInt16 y))
    else (none, s)
  | .mouseMotion state x y =>
    if state &&& sdlButtonLmask ≠ 0 then
      if conf.onPanel x y then
        (some ⟨.move, 0, toUInt16 x, toUInt16 y, 1, timestamp⟩,
          s.setLastValid (toUInt16 x) (toUInt16 y))
      else (some ⟨.up, 0, s.lastValidX, s.lastValidY, 1, timestamp⟩, s)
    else (none, s)
  | .mouseButtonUp button x y =>
    if button = sdlButtonLeft then
      if conf.onPanel x y then (some ⟨.up, 0, toUInt16 x, toUInt16 y, 1, timestamp⟩, s)
      else (some ⟨.up, 0, s.lastValidX, s.lastValidY, 1, timestamp⟩, s)
    else (none, s)
  | .fingerDown x y => (some ⟨.down, 0, x, y, 1, timestamp⟩, s.setLastValid x y)
  | .fingerMotion x y => (some ⟨.move, 0, x, y, 1, timestamp⟩, s.setLastValid x y)
  | .fingerUp x y => (some ⟨.up, 0, x, y, 1, timestamp⟩, s)
  | .other => (none, s)

/-- What a step gives to the outside. -/
inductive Answer
  | nothing
  /-- A touch event is stored, and the task of the panel is woken. -/
  | produced (ev : TpData)
  /-- A read finds an event and stores it in `tp_data[0]`. -/
  | delivered (ev : TpData)
  deriving DecidableEq, Repr

/-- Put an event into the slot. -/
def TpPcState.setSlot (s : TpPcState) (ev : TpData) : TpPcState :=
  { s with ev := ev, hasEvent := true }

/-- `tp_sdl_watch`. -/
def tpSdlWatch (conf : Conf) (s : TpPcState) (timestamp : UInt32) (e : SdlEvent) :
    TpPcState × Answer :=
  match touchEvent conf s timestamp e with
  | (none, s) => (s, .nothing)
  | (some ev, s) =>
    if s.queueEnabled then
      let r := s.enqueueEvent ev
      if r.2 = 0 then (r.1.setSlot ev, .produced ev) else (r.1, .nothing)
    else (s.setSlot ev, .produced ev)

/-- Take the event from the slot, if there is one. -/
def TpPcState.takeSlot (s : TpPcState) : TpPcState × Option TpData :=
  if s.hasEvent then ({ s with hasEvent := false }, some s.ev) else (s, none)

/-- The search of `luat_tp_pc_read` for an event. -/
def TpPcState.findEvent (s : TpPcState) : TpPcState × Option TpData :=
  if s.queueEnabled then
    match s.dequeueEvent with
    | (s, some ev) => (s, some ev)
    | (s, none) => s.takeSlot
  else s.takeSlot

section

variable (touchMax : Nat)

/-- `luat_tp_pc_init`, with `LUAT_TP_TOUCH_MAX` places for touch data. -/
def luatTpPcInit (conf : Conf) : State where
  tp := {
    hasEvent := false
    ev := .zero
    lastValidX := 0
    lastValidY := 0
    dataConsumed := true
    eventQueueSize := 8
    eventQueue := fun _ => .zero
    queueHead := 0
    queueTail := 0
    queueEnabled := true }
  conf := { conf with
    tpNum := if conf.tpNum = 0 then 1 else conf.tpNum
    tpData := fun i =>
      if i < touchMax then ⟨.none, UInt8.ofNat i, 0, 0, 1, 0⟩ else conf.tpData i }

/-- `luat_tp_pc_read`. -/
def luatTpPcRead (σ : State) : State × Answer :=
  match σ.tp.findEvent with
  | (s, some ev) =>
    let tpData := Function.update σ.conf.tpData 0 ev
    let tpData := if σ.conf.tpNum > 1 ∧ touchMax > 1 then Function.update tpData 1 ev else tpData
    (⟨{ s with dataConsumed := false }, { σ.conf with tpData := tpData }⟩, .delivered ev)
  | (s, none) =>
    if s.dataConsumed then
      let tpData := fun i =>
        if i < σ.conf.tpNum.toNat ∧ i < touchMax then { σ.conf.tpData i with event := .none }
        else σ.conf.tpData i
      (⟨s, { σ.conf with tpData := tpData }⟩, .nothing)
    else (⟨s, σ.conf⟩, .nothing)

/-- `luat_tp_pc_read_done`. -/
def luatTpPcReadDone (σ : State) : State := { σ with tp := { σ.tp with dataConsumed := true } }

/-- `luat_tp_pc_deinit`. -/
def luatTpPcDeinit (σ : State) : State :=
  if σ.tp.queueEnabled then
    { σ with tp := { σ.tp with queueHead := 0, queueTail := 0, queueEnabled := false } }
  else σ

/-- One action. -/
inductive Act
  | luatTpPcInit
  | tpSdlWatch (timestamp : UInt32) (e : SdlEvent)
  | luatTpPcRead
  | luatTpPcReadDone
  | luatTpPcDeinit
  deriving DecidableEq, Repr

/-- One step. -/
def step (σ : State) : Act → Option (State × Answer)
  | .luatTpPcInit => some (luatTpPcInit touchMax σ.conf, .nothing)
  | .tpSdlWatch timestamp e =>
    let r := tpSdlWatch σ.conf σ.tp timestamp e
    some ({ σ with tp := r.1 }, r.2)
  | .luatTpPcRead => some (luatTpPcRead touchMax σ)
  | .luatTpPcReadDone => some (luatTpPcReadDone σ, .nothing)
  | .luatTpPcDeinit => some (luatTpPcDeinit σ, .nothing)

/-- Before the first call the static state of the driver is zero. -/
def State.start (conf : Conf) : State where
  tp := {
    hasEvent := false
    ev := .zero
    lastValidX := 0
    lastValidY := 0
    dataConsumed := false
    eventQueueSize := 0
    eventQueue := fun _ => .zero
    queueHead := 0
    queueTail := 0
    queueEnabled := false }
  conf := conf

/-- The driver under every order of events and calls. -/
def machine (conf : Conf) : Machine State Act Answer := ⟨.start conf, step touchMax⟩

end

/-- A transition. -/
abbrev Trans := Transition State Act Answer

/-- The events and calls between `luat_tp_pc_init` and `luat_tp_pc_deinit`. -/
def Act.inUse : Act → Bool
  | .tpSdlWatch .. | .luatTpPcRead | .luatTpPcReadDone => true
  | .luatTpPcInit | .luatTpPcDeinit => false

/-- The touch event that a transition produces. -/
def produced (e : Trans) : List TpData :=
  match e.out with
  | .produced ev => [ev]
  | _ => []

/-- The event that a transition delivers. -/
def delivered (e : Trans) : List TpData :=
  match e.out with
  | .delivered ev => [ev]
  | _ => []

/-! ## The ring -/

/-- The driver is set up, and its indices are in the array. -/
structure Ready (s : TpPcState) : Prop where
  enabled : s.queueEnabled = true
  size : s.eventQueueSize = 8
  head : s.queueHead.toNat < 8
  tail : s.queueTail.toNat < 8

/-- What is in the ring, the oldest first. -/
def TpPcState.queue (s : TpPcState) : List TpData :=
  Ring.stored s.eventQueue 8 s.queueHead.toNat s.queueTail.toNat

theorem ready_init (touchMax : Nat) (conf : Conf) : Ready (luatTpPcInit touchMax conf).tp := by
  refine ⟨rfl, rfl, ?_, ?_⟩
  · show (0 : UInt8).toNat < 8
    decide
  · show (0 : UInt8).toNat < 8
    decide

namespace Ready

variable {s : TpPcState}

theorem toNat_nextIndex (h : Ready s) (i : UInt8) :
    (s.nextIndex i).toNat = (i.toNat + 1) % 8 := by
  have hsize : s.eventQueueSize.toNat = 8 := by
    rw [h.size]
    rfl
  have hlt : (i.toNat + 1) % 8 < 8 := Nat.mod_lt _ (by decide)
  unfold TpPcState.nextIndex
  rw [hsize, UInt8.toNat_ofNat']
  omega

theorem nextIndex_lt (h : Ready s) (i : UInt8) : (s.nextIndex i).toNat < 8 := by
  rw [h.toNat_nextIndex]
  exact Nat.mod_lt _ (by decide)

theorem nextIndex_eq_iff (h : Ready s) (i j : UInt8) :
    s.nextIndex i = j ↔ (i.toNat + 1) % 8 = j.toNat := by
  rw [← UInt8.toNat_inj, h.toNat_nextIndex]

theorem queue_eq_nil_iff (h : Ready s) : s.queue = [] ↔ s.queueHead = s.queueTail := by
  rw [TpPcState.queue, Ring.stored_eq_nil_iff _ h.head, UInt8.toNat_inj]

/-- To move the head on removes the oldest event. -/
theorem queue_eq_cons (h : Ready s) (hne : s.queueHead ≠ s.queueTail) :
    s.queue = s.eventQueue s.queueHead.toNat ::
      { s with queueHead := s.nextIndex s.queueHead }.queue := by
  have hne' : s.queueHead.toNat ≠ s.queueTail.toNat := fun heq => hne (UInt8.toNat_inj.1 heq)
  unfold TpPcState.queue
  rw [Ring.stored_eq_cons _ h.head h.tail hne', ← h.toNat_nextIndex]

/-- To write at the tail and move it on adds the newest event, unless the ring is full. -/
theorem queue_push (h : Ready s) (hfree : s.nextIndex s.queueTail ≠ s.queueHead) (ev : TpData) :
    { s with
      eventQueue := Function.update s.eventQueue s.queueTail.toNat ev
      queueTail := s.nextIndex s.queueTail }.queue = s.queue ++ [ev] := by
  have hfree' : (s.queueTail.toNat + 1) % 8 ≠ s.queueHead.toNat := fun heq =>
    hfree ((h.nextIndex_eq_iff _ _).2 heq)
  unfold TpPcState.queue
  dsimp only
  rw [h.toNat_nextIndex, Ring.stored_push _ ev h.head h.tail hfree']

/-- The ring is full with seven events. -/
theorem length_queue_eq_iff (h : Ready s) :
    s.queue.length = 7 ↔ s.nextIndex s.queueTail = s.queueHead := by
  rw [TpPcState.queue, Ring.length_stored, h.nextIndex_eq_iff]
  exact Ring.count_eq_pred_iff h.head h.tail

/-- The count that the warning about a filling ring goes by. -/
theorem getQueueCount_eq (h : Ready s) : s.getQueueCount = s.queue.length := by
  have hsize : s.eventQueueSize.toNat = 8 := by
    rw [h.size]
    rfl
  rw [TpPcState.queue, Ring.length_stored, TpPcState.getQueueCount, if_pos h.enabled, hsize]
  rfl

/-- **An event is stored** behind the others; of seven others the oldest is lost. -/
theorem enqueue_spec (h : Ready s) (ev : TpData) :
    (s.enqueueEvent ev).2 = 0 ∧ Ready (s.enqueueEvent ev).1 ∧
      (s.enqueueEvent ev).1.queue =
        (if s.queue.length = 7 then s.queue.tail else s.queue) ++ [ev] := by
  unfold TpPcState.enqueueEvent
  rw [if_pos h.enabled]
  refine ⟨rfl, ?_, ?_⟩
  · dsimp only
    split
    · exact ⟨h.enabled, h.size, h.nextIndex_lt _, h.nextIndex_lt _⟩
    · exact ⟨h.enabled, h.size, h.head, h.nextIndex_lt _⟩
  · by_cases hfull : s.nextIndex s.queueTail = s.queueHead
    · rw [if_pos (h.length_queue_eq_iff.2 hfull)]
      dsimp only
      rw [if_pos hfull]
      -- make room first, then there is a free place
      have hne : s.queueHead ≠ s.queueTail := by
        intro heq
        have hnext := (h.nextIndex_eq_iff _ _).1 hfull
        rw [heq] at hnext
        have htail := h.tail
        omega
      have hready : Ready { s with queueHead := s.nextIndex s.queueHead } :=
        ⟨h.enabled, h.size, h.nextIndex_lt _, h.tail⟩
      have hfree : s.nextIndex s.queueTail ≠ s.nextIndex s.queueHead := by
        rw [hfull]
        intro heq
        have hnext := (h.nextIndex_eq_iff _ _).1 heq.symm
        have hhead := h.head
        omega
      rw [h.queue_eq_cons hne, List.tail_cons]
      exact hready.queue_push hfree ev
    · rw [if_neg fun hlen => hfull (h.length_queue_eq_iff.1 hlen)]
      dsimp only
      rw [if_neg hfull]
      exact h.queue_push hfull ev

/-- **The oldest event is taken**, if there is one. -/
theorem dequeue_spec (h : Ready s) :
    (s.queue = [] ∧ s.dequeueEvent = (s, none)) ∨
      ∃ ev s', s.dequeueEvent = (s', some ev) ∧ Ready s' ∧ s.queue = ev :: s'.queue ∧
        s'.ev = s.ev ∧ s'.hasEvent = s.hasEvent := by
  unfold TpPcState.dequeueEvent
  rw [if_pos h.enabled]
  by_cases hempty : s.queueHead = s.queueTail
  · exact Or.inl ⟨h.queue_eq_nil_iff.2 hempty, if_pos hempty⟩
  · refine Or.inr ⟨_, _, if_neg hempty, ?_, h.queue_eq_cons hempty, rfl, rfl⟩
    exact ⟨h.enabled, h.size, h.nextIndex_lt _, h.tail⟩

end Ready

/-! ## What a step does -/

/-- What a step of a driver in use does to the ring and the slot. -/
inductive Effect (s s' : TpPcState) (o : Answer) : Prop
  | quiet (hout : o = .nothing) (hqueue : s'.queue = s.queue) (hev : s'.ev = s.ev)
      (hslot : s'.hasEvent = s.hasEvent)
  | stores (ev : TpData) (hout : o = .produced ev)
      (hqueue : s'.queue = (if s.queue.length = 7 then s.queue.tail else s.queue) ++ [ev])
      (hev : s'.ev = ev)
  | takes (ev : TpData) (hout : o = .delivered ev) (hqueue : s.queue = ev :: s'.queue)
      (hev : s'.ev = s.ev) (hslot : s'.hasEvent = s.hasEvent)
  | fromSlot (hout : o = .delivered s.ev) (hbefore : s.queue = []) (hqueue : s'.queue = [])
      (hslot : s.hasEvent = true) (hafter : s'.hasEvent = false)

/-- The first part of `tp_sdl_watch` changes the last valid position only. -/
theorem touchEvent_snd (conf : Conf) (s : TpPcState) (timestamp : UInt32) (e : SdlEvent) :
    ∃ x y, (touchEvent conf s timestamp e).2 = s.setLastValid x y := by
  have hsame : ∃ x y, s = s.setLastValid x y := ⟨s.lastValidX, s.lastValidY, rfl⟩
  cases e with
  | mouseButtonDown button x y =>
    simp only [touchEvent]
    split
    · exact ⟨_, _, rfl⟩
    · exact hsame
  | mouseMotion state x y =>
    simp only [touchEvent]
    split
    · split
      · exact ⟨_, _, rfl⟩
      · exact hsame
    · exact hsame
  | mouseButtonUp button x y =>
    simp only [touchEvent]
    split
    · split <;> exact hsame
    · exact hsame
  | fingerDown x y => exact ⟨x, y, rfl⟩
  | fingerMotion x y => exact ⟨x, y, rfl⟩
  | fingerUp x y => exact hsame
  | other => exact hsame

theorem watch_effect {conf : Conf} {s : TpPcState} (h : Ready s) (timestamp : UInt32)
    (e : SdlEvent) :
    (tpSdlWatch conf s timestamp e).2 =
        (touchEvent conf s timestamp e).1.elim .nothing .produced ∧
      Ready (tpSdlWatch conf s timestamp e).1 ∧
      Effect s (tpSdlWatch conf s timestamp e).1 (tpSdlWatch conf s timestamp e).2 := by
  obtain ⟨x, y, hs⟩ := touchEvent_snd conf s timestamp e
  have hready : Ready (s.setLastValid x y) := ⟨h.enabled, h.size, h.head, h.tail⟩
  cases hev : (touchEvent conf s timestamp e).1 with
  | none =>
    have htouch : touchEvent conf s timestamp e = (none, s.setLastValid x y) := Prod.ext hev hs
    simp only [tpSdlWatch, htouch]
    exact ⟨rfl, hready, .quiet rfl rfl rfl rfl⟩
  | some ev =>
    have htouch : touchEvent conf s timestamp e = (some ev, s.setLastValid x y) := Prod.ext hev hs
    obtain ⟨hret, hready', hqueue⟩ := hready.enqueue_spec ev
    simp only [tpSdlWatch, htouch, hready.enabled, hret, if_true]
    exact ⟨rfl, ⟨hready'.enabled, hready'.size, hready'.head, hready'.tail⟩,
      .stores ev rfl hqueue rfl⟩

theorem read_effect (touchMax : Nat) {σ : State} (h : Ready σ.tp) :
    Ready (luatTpPcRead touchMax σ).1.tp ∧
      Effect σ.tp (luatTpPcRead touchMax σ).1.tp (luatTpPcRead touchMax σ).2 := by
  obtain ⟨hempty, hdeq⟩ | ⟨ev, s', hdeq, hready, hqueue, hev, hslot⟩ := h.dequeue_spec
  · by_cases hslot : σ.tp.hasEvent = true
    · have hfind : σ.tp.findEvent = ({ σ.tp with hasEvent := false }, some σ.tp.ev) := by
        simp [TpPcState.findEvent, h.enabled, hdeq, TpPcState.takeSlot, hslot]
      simp only [luatTpPcRead, hfind]
      exact ⟨⟨h.enabled, h.size, h.head, h.tail⟩, .fromSlot rfl hempty hempty hslot rfl⟩
    · have hfind : σ.tp.findEvent = (σ.tp, none) := by
        simp [TpPcState.findEvent, h.enabled, hdeq, TpPcState.takeSlot, hslot]
      simp only [luatTpPcRead, hfind]
      split <;> exact ⟨h, .quiet rfl rfl rfl rfl⟩
  · have hfind : σ.tp.findEvent = (s', some ev) := by
      simp [TpPcState.findEvent, h.enabled, hdeq]
    simp only [luatTpPcRead, hfind]
    exact ⟨⟨hready.enabled, hready.size, hready.head, hready.tail⟩,
      .takes ev rfl hqueue hev hslot⟩

/-- **One step of a driver in use.** -/
theorem step_effect {touchMax : Nat} {σ σ' : State} {a : Act} {o : Answer}
    (h : step touchMax σ a = some (σ', o)) (hready : Ready σ.tp) (huse : a.inUse = true) :
    Ready σ'.tp ∧ Effect σ.tp σ'.tp o := by
  cases a with
  | tpSdlWatch timestamp e =>
    cases h
    exact (watch_effect hready timestamp e).2
  | luatTpPcRead =>
    simp only [step, Option.some.injEq] at h
    have hread := read_effect touchMax hready
    rw [h] at hread
    exact hread
  | luatTpPcReadDone =>
    cases h
    exact ⟨⟨hready.enabled, hready.size, hready.head, hready.tail⟩, .quiet rfl rfl rfl rfl⟩
  | luatTpPcInit => cases huse
  | luatTpPcDeinit => cases huse

/-- An init leaves the driver as it sets it up. -/
theorem step_init {touchMax : Nat} {σ σ' : State} {a : Act} {o : Answer}
    (h : step touchMax σ a = some (σ', o)) (ha : a = .luatTpPcInit) :
    σ' = luatTpPcInit touchMax σ.conf := by
  subst ha
  cases h
  rfl

/-! ## Delivery -/

/-- A read that finds the ring empty and an event in the slot. -/
def ReadsSlot (e : Trans) : Prop :=
  e.act = .luatTpPcRead ∧ e.src.tp.queue = [] ∧ e.src.tp.hasEvent = true

instance : DecidablePred ReadsSlot := fun _ => inferInstanceAs (Decidable (_ ∧ _ ∧ _))

/-- Only a read delivers something. -/
theorem act_of_delivered {touchMax : Nat} {σ σ' : State} {a : Act} {ev : TpData}
    (h : step touchMax σ a = some (σ', .delivered ev)) (hready : Ready σ.tp) :
    a = .luatTpPcRead := by
  cases a with
  | luatTpPcRead => rfl
  | tpSdlWatch timestamp e =>
    simp only [step, Option.some.injEq, Prod.mk.injEq, (watch_effect hready timestamp e).1] at h
    cases hev : (touchEvent σ.conf σ.tp timestamp e).1 <;> simp [hev] at h
  | luatTpPcInit | luatTpPcReadDone | luatTpPcDeinit => cases h

/-- It reads the slot exactly if it delivers something with the ring empty. -/
theorem readsSlot_iff {touchMax : Nat} {σ σ' : State} {a : Act} {o : Answer}
    (h : step touchMax σ a = some (σ', o)) (hready : Ready σ.tp) (huse : a.inUse = true) :
    ReadsSlot ⟨σ, a, o, σ'⟩ ↔ delivered ⟨σ, a, o, σ'⟩ ≠ [] ∧ σ.tp.queue = [] := by
  constructor
  · rintro ⟨rfl, hempty, hslot⟩
    have hdeq : σ.tp.dequeueEvent = (σ.tp, none) := by
      obtain ⟨-, hdeq⟩ | ⟨ev, s', -, -, hqueue, -⟩ := hready.dequeue_spec
      · exact hdeq
      · cases hqueue.symm.trans hempty
    have hfind : σ.tp.findEvent = ({ σ.tp with hasEvent := false }, some σ.tp.ev) := by
      rw [TpPcState.findEvent, hdeq]
      simp only [hready.enabled, if_true, TpPcState.takeSlot]
      rw [if_pos hslot]
    simp only [step, luatTpPcRead, hfind, Option.some.injEq, Prod.mk.injEq] at h
    obtain ⟨-, rfl⟩ := h
    exact ⟨List.cons_ne_nil _ _, hempty⟩
  · rintro ⟨hdel, hempty⟩
    cases (step_effect h hready huse).2 with
    | quiet hout => exact absurd (by rw [hout]; rfl) hdel
    | stores ev hout => exact absurd (by rw [hout]; rfl) hdel
    | takes ev hout hqueue => cases hqueue.symm.trans hempty
    | fromSlot hout hbefore hqueue hslot =>
      subst hout
      exact ⟨act_of_delivered h hready, hempty, hslot⟩

/-- **One step** delivers the oldest event and stores the newest, unless it delivers an event with
the ring empty. -/
theorem Effect.sublist {σ σ' : State} {a : Act} {o : Answer} (h : Effect σ.tp σ'.tp o)
    (hslot : ¬ (delivered ⟨σ, a, o, σ'⟩ ≠ [] ∧ σ.tp.queue = [])) :
    (delivered ⟨σ, a, o, σ'⟩ ++ σ'.tp.queue).Sublist
      (σ.tp.queue ++ produced ⟨σ, a, o, σ'⟩) := by
  cases h with
  | quiet hout hqueue =>
    subst hout
    simp [delivered, produced, hqueue]
  | stores ev hout hqueue =>
    subst hout
    rw [hqueue]
    refine List.Sublist.append_right ?_ [ev]
    split
    · exact List.tail_sublist _
    · exact List.Sublist.refl _
  | takes ev hout hqueue =>
    subst hout
    simp [delivered, produced, hqueue]
  | fromSlot hout hbefore =>
    subst hout
    exact absurd ⟨by simp [delivered], hbefore⟩ hslot

/-- While the slot holds an event, it is the newest in the ring; if the ring is empty, it
has been delivered. -/
def SlotStale (log : List TpData) (s : TpPcState) : Prop :=
  s.hasEvent = true → s.queue.getLast? = some s.ev ∨ (s.queue = [] ∧ s.ev ∈ log)

theorem SlotStale.next {log : List TpData} {σ σ' : State} {a : Act} {o : Answer}
    (hs : SlotStale log σ.tp) (h : Effect σ.tp σ'.tp o) :
    SlotStale (log ++ delivered ⟨σ, a, o, σ'⟩) σ'.tp := by
  intro hevent
  cases h with
  | quiet hout hqueue hev hslot =>
    rw [hqueue, hev]
    refine (hs (hslot ▸ hevent)).imp id ?_
    rintro ⟨hempty, hmem⟩
    exact ⟨hempty, List.mem_append_left _ hmem⟩
  | stores ev hout hqueue hev =>
    left
    rw [hqueue, hev, List.getLast?_concat]
  | takes ev hout hqueue hev hslot =>
    subst hout
    rw [hev]
    obtain hlast | ⟨hempty, -⟩ := hs (hslot ▸ hevent)
    · rw [hqueue] at hlast
      -- the event that was taken is the last one, or it is not
      cases hrest : σ'.tp.queue with
      | nil =>
        rw [hrest] at hlast
        obtain rfl : ev = σ.tp.ev := by simpa using hlast
        exact Or.inr ⟨rfl, List.mem_append_right _ (List.mem_singleton_self _)⟩
      | cons x rest =>
        rw [hrest, List.getLast?_cons_cons] at hlast
        exact Or.inl hlast
    · rw [hempty] at hqueue
      cases hqueue
  | fromSlot hout hbefore hqueue hslot hafter =>
    rw [hafter] at hevent
    cases hevent

/-- What is delivered from the slot was delivered before. -/
theorem Effect.mem_of_slot {log : List TpData} {σ σ' : State} {a : Act} {o : Answer}
    (h : Effect σ.tp σ'.tp o) (hs : SlotStale log σ.tp) (hdel : delivered ⟨σ, a, o, σ'⟩ ≠ [])
    (hempty : σ.tp.queue = []) : ∃ ev ∈ log, delivered ⟨σ, a, o, σ'⟩ = [ev] := by
  cases h with
  | quiet hout => exact absurd (by rw [hout]; rfl) hdel
  | stores ev hout => exact absurd (by rw [hout]; rfl) hdel
  | takes ev hout hqueue => cases hqueue.symm.trans hempty
  | fromSlot hout hbefore hqueue hevent =>
    subst hout
    obtain hlast | ⟨-, hmem⟩ := hs hevent
    · rw [hbefore] at hlast
      cases hlast
    · exact ⟨_, hmem, rfl⟩

section

variable {touchMax : Nat} {conf : Conf} {σ₀ σ : State} {tr : List Trans}

/-- As long as the slot is not read, events come out in the order in which they went in. -/
theorem path_sublist (h : Path (machine touchMax conf) σ₀ tr σ) (hready : Ready σ₀.tp)
    (huse : ∀ e ∈ tr, e.act.inUse = true) (hslot : ∀ e ∈ tr, ¬ ReadsSlot e) :
    (tr.flatMap delivered ++ σ.tp.queue).Sublist (σ₀.tp.queue ++ tr.flatMap produced) := by
  obtain ⟨ys, ⟨-, rfl⟩, hsub⟩ := h.lossy_fifo (R := fun σ xs => Ready σ.tp ∧ σ.tp.queue = xs)
    (C := fun e => e.act.inUse = true ∧ ¬ ReadsSlot e)
    (fun e he => ⟨huse e he, hslot e he⟩) ⟨hready, rfl⟩ (by
      rintro σ a σ' o xs ⟨hready, rfl⟩ hs ⟨huse, hslot⟩
      obtain ⟨hready', heffect⟩ := step_effect hs hready huse
      rw [readsSlot_iff hs hready huse] at hslot
      exact ⟨_, ⟨hready', rfl⟩, heffect.sublist hslot⟩)
  exact hsub

theorem path_slotStale (h : Path (machine touchMax conf) σ₀ tr σ) (hready : Ready σ₀.tp)
    (hevent : σ₀.tp.hasEvent = false) (huse : ∀ e ∈ tr, e.act.inUse = true) :
    Ready σ.tp ∧ SlotStale (tr.flatMap delivered) σ.tp := by
  refine h.history_invariant (C := fun e => e.act.inUse = true)
    (I := fun tr σ => Ready σ.tp ∧ SlotStale (tr.flatMap delivered) σ.tp) huse ?_ ?_
  · refine ⟨hready, ?_⟩
    intro htrue
    rw [hevent] at htrue
    cases htrue
  · rintro tr σ a σ' o ⟨hready, hs⟩ hstep huse
    obtain ⟨hready', heffect⟩ := step_effect hstep hready huse
    rw [List.flatMap_append, List.flatMap_singleton]
    exact ⟨hready', hs.next heffect⟩

end

/-- **Each touch event is delivered at most once**, and in order, between an init and a
deinit, as long as no read finds the ring empty and an event in the slot; and if no two events
are the same, then not otherwise, since the event in the slot was delivered before. -/
theorem touch_event_once {touchMax : Nat} {conf : Conf} {tr : List Trans} {σ : State}
    (h : Run (machine touchMax conf) tr σ) {pre post : List Trans} {c : Trans}
    (he : tr = pre ++ c :: post) (hinit : c.act = .luatTpPcInit)
    (huse : ∀ e ∈ post, e.act.inUse = true) :
    ((∀ e ∈ post, ¬ ReadsSlot e) → (post.flatMap delivered).Sublist (post.flatMap produced)) ∧
    ((post.flatMap produced).Nodup → (post.flatMap delivered).Sublist (post.flatMap produced) →
      ∀ e ∈ post, ¬ ReadsSlot e) := by
  have hdst := step_init (h.split he).2 hinit
  have hready : Ready c.dst.tp := by
    rw [hdst]
    exact ready_init touchMax c.src.conf
  have hevent : c.dst.tp.hasEvent = false := by
    rw [hdst]
    rfl
  have hempty : c.dst.tp.queue = [] := by
    rw [hdst]
    rfl
  constructor
  · intro hslot
    have hsub := path_sublist (h.path he) hready huse hslot
    rw [hempty] at hsub
    exact (List.sublist_append_left _ _).trans hsub
  · intro hnodup hsub e hmem hslot
    obtain ⟨mid, rest, rfl⟩ := List.append_of_mem hmem
    have htr : tr = (pre ++ c :: mid) ++ e :: rest := by
      rw [he]
      simp
    obtain ⟨hmid, hstep⟩ := h.split htr
    obtain ⟨hready', hstale⟩ := path_slotStale (hmid.path rfl) hready hevent
      fun e he => huse e (List.mem_append_left _ he)
    obtain ⟨-, heffect⟩ := step_effect hstep hready' (huse e hmem)
    obtain ⟨hdel, hempty'⟩ := (readsSlot_iff hstep hready' (huse e hmem)).1 hslot
    obtain ⟨ev, hlog, hdel⟩ := heffect.mem_of_slot hstale hdel hempty'
    -- the event occurs twice
    have htwice := hsub.nodup hnodup
    rw [List.flatMap_append, List.flatMap_cons] at htwice
    have hdisj := (List.nodup_append.1 htwice).2.2 ev hlog ev
    refine hdisj (List.mem_append_left _ ?_) rfl
    exact hdel ▸ List.mem_singleton_self ev

/-- A panel of 320 by 240. -/
def panel : Conf := ⟨320, 240, 1, fun _ => .zero⟩

/-- The left button is pressed, the event is read, the button is released, and that event is
read. -/
def pressOps : List Act :=
  [.luatTpPcInit, .tpSdlWatch 1 (.mouseButtonDown 1 10 20), .luatTpPcRead,
    .tpSdlWatch 2 (.mouseButtonUp 1 10 20), .luatTpPcRead]

theorem touch_event_once_press :
    (((machine 10 panel).traceOf pressOps).drop 1).flatMap delivered =
        [⟨.down, 0, 10, 20, 1, 1⟩, ⟨.up, 0, 10, 20, 1, 2⟩] ∧
      ((((machine 10 panel).traceOf pressOps).drop 1).flatMap delivered).Sublist
        ((((machine 10 panel).traceOf pressOps).drop 1).flatMap produced) := by
  have h0 : 0 < ((machine 10 panel).traceOf pressOps).length := by decide
  have huse : ∀ a ∈ pressOps.drop 1, a.inUse = true := by decide
  refine ⟨by decide, (touch_event_once (Machine.run_exec (by decide))
    (Machine.traceOf_split h0) rfl ?_).1 ?_⟩
  · intro e he
    exact huse _ (Machine.act_mem_of_mem_drop he)
  · decide

/-- After the press one read too many is made. -/
def readTwiceOps : List Act :=
  [.luatTpPcInit, .tpSdlWatch 1 (.mouseButtonDown 1 10 20), .luatTpPcRead, .luatTpPcRead]

/-- The press is delivered twice. -/
theorem touch_event_twice :
    Run (machine 10 panel) ((machine 10 panel).traceOf readTwiceOps)
      ((machine 10 panel).stateOf readTwiceOps) ∧
    ((machine 10 panel).traceOf readTwiceOps).flatMap produced = [⟨.down, 0, 10, 20, 1, 1⟩] ∧
    ((machine 10 panel).traceOf readTwiceOps).flatMap delivered =
      [⟨.down, 0, 10, 20, 1, 1⟩, ⟨.down, 0, 10, 20, 1, 1⟩] :=
  ⟨Machine.run_exec (by decide), by decide, by decide⟩

end LuatosPc.Driver.Touch
