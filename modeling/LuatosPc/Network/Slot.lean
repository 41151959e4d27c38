import LuatosPc.Network.Run

/-!
# One slot as a machine of its own

Whether a slot is free, whom it belongs to and what may still happen to it
depends on six numbers only: its tag, its state, its protocol, and how many
connect, shutdown and close callbacks libuv owes it.  This file says what every
action of the adapter does to these six, and that it does nothing else to them.

* `SlotView` — the six numbers; `Adapter.view` — how a slot of the adapter is
  seen.
* `SlotAct`, `SlotView.step` — the actions on one slot; `StepFrame` — what any of
  them can do.
* `slotAct` — which of them a transition of the adapter is, for a given slot.
* `simulates` — the slot machine follows the adapter step by step, for every
  slot; what is proved of the slot machine holds of the adapter.
-/

namespace LuatosPc
namespace Libuv

open Adapter

variable {β : Type}

/-- What decides the fate of a slot. -/
structure SlotView where
  tag : UInt64
  state : SocketState
  isTcp : Bool
  /-- `on_connect` and `udp_connect_async` callbacks still owed. -/
  connects : Nat
  /-- `on_shutdown` callbacks still owed. -/
  shutdowns : Nat
  /-- `udp_async_close` callbacks still owed. -/
  closes : Nat
  deriving DecidableEq

/-- A slot of the adapter, seen from outside. -/
def Adapter.view (σ : Adapter β) (s : Slot) : SlotView where
  tag := (σ.sockets s).tag
  state := (σ.sockets s).state
  isTcp := (σ.sockets s).isTcp
  connects := σ.pending.count (.onConnect s) + σ.pending.count (.udpConnectAsync s)
  shutdowns := σ.pending.count (.onShutdown s)
  closes := σ.pending.count (.udpAsyncClose s)

/-- What an action of the adapter is to one slot. -/
inductive SlotAct
  /-- Nothing that concerns the slot. -/
  | other
  /-- The slot is handed out. -/
  | create (isTcp : Bool) (tag : UInt64)
  /-- A connect request is accepted. -/
  | connect (tag : UInt64)
  /-- `disconnect` or `close` is called. -/
  | close (tag : UInt64) (accepted : Bool)
  | forceClose (accepted : Bool)
  | clean
  /-- A connect callback runs, with status 0 or with another one. -/
  | connected
  | connectFailed
  /-- `on_shutdown` runs. -/
  | shutdown
  /-- `udp_async_close` runs. -/
  | asyncClose
  | eof
  | readError
  deriving DecidableEq

namespace SlotView

/-- A slot no owner holds or that is closed: what `CHECK_SOCKET_ID` turns away
whatever the tag. -/
def Released (v : SlotView) : Prop := v.tag = 0 ∨ v.state = .closed

instance (v : SlotView) : Decidable v.Released := inferInstanceAs (Decidable (_ ∨ _))

/-- The free test of `libuv_create_socket`. -/
def Free (v : SlotView) : Prop := v.tag = 0 ∧ (v.state = .idle ∨ v.state = .closed)

instance (v : SlotView) : Decidable v.Free := inferInstanceAs (Decidable (_ ∧ _))

/-- libuv's answer to a close request: the callback is owed, or the slot is
closed at once. -/
def requestClose (v : SlotView) (accepted : Bool) : SlotView :=
  if accepted = false then { v with state := .closed }
  else if v.isTcp then { v with shutdowns := v.shutdowns + 1 }
  else { v with closes := v.closes + 1 }

/-- The end of a socket, as both close callbacks make it. -/
def finish (v : SlotView) : SlotView := { v with state := .closed, tag := 0 }

/-- `on_shutdown`, as a slot sees it. -/
def shut (v : SlotView) : SlotView := if v.Released then v else v.finish

/-- `on_close`, as a slot sees it: it also takes the tag of a closed slot. -/
def closeDone (v : SlotView) : SlotView := if v.Released then { v with tag := 0 } else v.finish

/-- `libuv_socket_clean`, as a slot it is given sees it. -/
def cleaned (v : SlotView) : SlotView := if v.Released then { v with state := .idle } else v

/-- `on_recv` at the end of the stream, as a slot sees it. -/
def remoteClosed (v : SlotView) : SlotView :=
  if v.state = .closed ∨ v.state = .closing then v else { v with state := .closing }

/-- `on_recv` with an error, as a slot sees it. -/
def readFailed (v : SlotView) : SlotView :=
  if v.state = .closed then v else { v with state := .closing }

@[simp] theorem requestClose_tag (v : SlotView) (accepted : Bool) :
    (v.requestClose accepted).tag = v.tag := by
  unfold requestClose
  split
  · rfl
  · split <;> rfl

@[simp] theorem requestClose_connects (v : SlotView) (accepted : Bool) :
    (v.requestClose accepted).connects = v.connects := by
  unfold requestClose
  split
  · rfl
  · split <;> rfl

@[simp] theorem requestClose_isTcp (v : SlotView) (accepted : Bool) :
    (v.requestClose accepted).isTcp = v.isTcp := by
  unfold requestClose
  split
  · rfl
  · split <;> rfl

@[simp] theorem cleaned_tag (v : SlotView) : v.cleaned.tag = v.tag := by
  unfold cleaned
  split <;> rfl

@[simp] theorem remoteClosed_tag (v : SlotView) : v.remoteClosed.tag = v.tag := by
  unfold remoteClosed
  split <;> rfl

@[simp] theorem readFailed_tag (v : SlotView) : v.readFailed.tag = v.tag := by
  unfold readFailed
  split <;> rfl

@[simp] theorem closeDone_tag (v : SlotView) : v.closeDone.tag = 0 := by
  unfold closeDone
  split <;> rfl

/-- One action on a slot. -/
def step (v : SlotView) : SlotAct → Option SlotView
  | .other => some v
  | .create isTcp t =>
    if v.Free then some { v with tag := t, state := .used, isTcp := isTcp } else none
  | .connect t =>
    if v.Released ∨ v.tag ≠ t then none
    else some { v with state := .connecting, connects := v.connects + 1 }
  | .close t accepted => some (if v.Released ∨ v.tag ≠ t then v else v.requestClose accepted)
  | .forceClose accepted =>
    some (if v.Released then v else { v.requestClose accepted with tag := 0 })
  | .clean => some v.cleaned
  | .connected =>
    if v.connects = 0 then none
    else some { v with connects := v.connects - 1, state := .connected }
  | .connectFailed =>
    if v.connects = 0 then none
    else some { v with connects := v.connects - 1, state := .closed }
  | .shutdown =>
    if v.shutdowns = 0 then none
    else some { v with shutdowns := v.shutdowns - 1 }.shut
  | .asyncClose =>
    if v.closes = 0 then none
    else some { v with closes := v.closes - 1 }.closeDone
  | .eof => some v.remoteClosed
  | .readError => some v.readFailed

/-- The machine of one slot, from a zeroed table. -/
def machine : Machine SlotView SlotAct Unit :=
  ⟨⟨0, .idle, false, 0, 0, 0⟩, fun v a => (v.step a).map fun v' => (v', ())⟩

theorem machine_step {v v' : SlotView} {a : SlotAct} {o : Unit} :
    machine.step v a = some (v', o) ↔ v.step a = some v' := by
  simp [machine]

/-- What an action can do to a slot. -/
structure StepFrame (v : SlotView) (a : SlotAct) (v' : SlotView) : Prop where
  /-- The tag stays, is cleared, or is the one the slot is handed out with. -/
  tag : (∃ isTcp, a = .create isTcp v'.tag) ∨ v'.tag = v.tag ∨ v'.tag = 0
  /-- The protocol is settled when the slot is handed out. -/
  isTcp : (∃ t, a = .create v'.isTcp t) ∨ v'.isTcp = v.isTcp
  /-- Only an accepted connect adds to the connect callbacks owed. -/
  connects : (a = .connect v.tag ∧ v'.tag = v.tag) ∨ v'.connects ≤ v.connects
  /-- Only an accepted close adds to the close callbacks owed to an owner. -/
  closes : (a = .close v.tag true ∧ v'.tag = v.tag) ∨ v'.tag = 0 ∨
    (v'.shutdowns ≤ v.shutdowns ∧ v'.closes ≤ v.closes)
  /-- `udp_async_close` does not run without clearing the tag. -/
  asyncClose : v'.tag = 0 ∨ v.closes ≤ v'.closes
  /-- Only a connect callback connects a slot. -/
  connected : a = .connected ∨ v'.state ≠ .connected ∨ v'.state = v.state

/-- **What a step can do**, whatever the action. -/
theorem step_frame {v v' : SlotView} {a : SlotAct} (h : v.step a = some v') :
    StepFrame v a v' := by
  cases a with
  | other => cases h; constructor <;> simp
  | create isTcp t =>
    simp only [SlotView.step, Option.ite_none_right_eq_some, Option.some.injEq] at h
    obtain ⟨-, rfl⟩ := h
    constructor <;> simp
  | connect t =>
    simp only [SlotView.step, Option.ite_none_left_eq_some, Option.some.injEq, not_or, not_not] at h
    obtain ⟨⟨-, rfl⟩, rfl⟩ := h
    constructor <;> simp
  | close t accepted =>
    cases h
    split
    · constructor <;> simp
    · rename_i hc
      rw [not_or, not_not] at hc
      obtain ⟨-, rfl⟩ := hc
      unfold requestClose
      cases accepted with
      | false => constructor <;> simp
      | true =>
        rw [if_neg (by simp)]
        split <;> constructor <;> simp
  | forceClose accepted =>
    cases h
    split
    · constructor <;> simp
    · unfold requestClose
      split
      · constructor <;> simp
      · split <;> constructor <;> simp
  | clean =>
    cases h
    unfold cleaned
    split <;> constructor <;> simp
  | connected =>
    simp only [SlotView.step, Option.ite_none_left_eq_some, Option.some.injEq] at h
    obtain ⟨-, rfl⟩ := h
    constructor <;> simp
  | connectFailed =>
    simp only [SlotView.step, Option.ite_none_left_eq_some, Option.some.injEq] at h
    obtain ⟨-, rfl⟩ := h
    constructor <;> simp
  | shutdown =>
    simp only [SlotView.step, Option.ite_none_left_eq_some, Option.some.injEq] at h
    obtain ⟨-, rfl⟩ := h
    unfold shut
    split <;> constructor <;> simp [finish]
  | asyncClose =>
    simp only [SlotView.step, Option.ite_none_left_eq_some, Option.some.injEq] at h
    obtain ⟨-, rfl⟩ := h
    unfold closeDone
    split <;> constructor <;> simp [finish]
  | eof =>
    cases h
    unfold remoteClosed
    split <;> constructor <;> simp
  | readError =>
    cases h
    unfold readFailed
    split <;> constructor <;> simp
end SlotView

/-- libuv owes slot `s` no callback that concerns its life. -/
def Quiet (s : Slot) (σ : Adapter β) : Prop :=
  .onConnect s ∉ σ.pending ∧ .udpConnectAsync s ∉ σ.pending ∧ .onShutdown s ∉ σ.pending ∧
    .udpAsyncClose s ∉ σ.pending

theorem Quiet.view {s : Slot} {σ : Adapter β} (h : Quiet s σ) :
    (σ.view s).connects = 0 ∧ (σ.view s).shutdowns = 0 ∧ (σ.view s).closes = 0 := by
  obtain ⟨h1, h2, h3, h4⟩ := h
  refine ⟨?_, List.count_eq_zero.2 h3, List.count_eq_zero.2 h4⟩
  show σ.pending.count (.onConnect s) + σ.pending.count (.udpConnectAsync s) = 0
  rw [List.count_eq_zero.2 h1, List.count_eq_zero.2 h2]

/-- What a transition of the adapter is to slot `s`. -/
def slotAct (s : Slot) (e : Trans β) : SlotAct :=
  match e.act with
  | .create isTcp _ _ =>
    match e.out with
    | .created ret (some t) => if ret = s.val then .create isTcp t else .other
    | _ => .other
  | .connect id t _ =>
    match e.out with
    | .code ret => if slotOf id = some s ∧ ret = 0 then .connect t else .other
    | _ => .other
  | .disconnect id t ret | .close id t ret =>
    if slotOf id = some s then .close t (ret = 0) else .other
  | .forceClose id ret => if slotOf id = some s then .forceClose (ret = 0) else .other
  | .clean list => if s ∈ list.filterMap slotOf then .clean else .other
  | .onConnect s' status _ _ =>
    if s' = s then if status = 0 then .connected else .connectFailed else .other
  | .udpConnectAsync s' _ _ => if s' = s then .connected else .other
  | .onShutdown s' _ => if s' = s then .shutdown else .other
  | .udpAsyncClose s' _ => if s' = s then .asyncClose else .other
  | .onRecv s' .eof _ _ => if s' = s then .eof else .other
  | .onRecv s' .error _ _ => if s' = s then .readError else .other
  | _ => .other

/-- Only a create call that returns the slot hands it out. -/
theorem slotAct_eq_create {s : Slot} {e : Trans β} {isTcp : Bool} {t : UInt64}
    (h : slotAct s e = .create isTcp t) :
    (∃ param isIpv6, e.act = .create isTcp param isIpv6) ∧ e.out = .created s.val (some t) := by
  revert h
  fun_cases slotAct s e <;> intro h <;> cases h
  rename_i hact hout
  exact ⟨⟨_, _, hact⟩, hout⟩

/-- A connect that is accepted is a call of `libuv_socket_connect` on the slot. -/
theorem slotAct_eq_connect {s : Slot} {e : Trans β} {t : UInt64} (h : slotAct s e = .connect t) :
    ∃ id ret, e.act = .connect id t ret ∧ slotOf id = some s := by
  revert h
  fun_cases slotAct s e <;> intro h <;> cases h
  rename_i hid hact
  exact ⟨_, _, hact, hid.1⟩

/-- What is a close to the slot is a call of `libuv_socket_disconnect` or
`libuv_socket_close` on it. -/
theorem slotAct_eq_close {s : Slot} {e : Trans β} {t : UInt64} {accepted : Bool}
    (h : slotAct s e = .close t accepted) :
    ∃ id ret, (e.act = .disconnect id t ret ∨ e.act = .close id t ret) ∧ slotOf id = some s ∧
      accepted = decide (ret = 0) := by
  revert h
  fun_cases slotAct s e <;> intro h <;> cases h
  · rename_i hid hact
    exact ⟨_, _, Or.inl hact, hid, rfl⟩
  · rename_i hid hact
    exact ⟨_, _, Or.inr hact, hid, rfl⟩

theorem slotAct_eq_forceClose {s : Slot} {e : Trans β} {accepted : Bool}
    (h : slotAct s e = .forceClose accepted) :
    ∃ id ret, e.act = .forceClose id ret ∧ slotOf id = some s := by
  revert h
  fun_cases slotAct s e <;> intro h <;> cases h
  rename_i hact hid
  exact ⟨_, _, hact, hid⟩

theorem slotAct_eq_connectFailed {s : Slot} {e : Trans β} (h : slotAct s e = .connectFailed) :
    ∃ status readRet posted, e.act = .onConnect s status readRet posted ∧ status ≠ 0 := by
  revert h
  fun_cases slotAct s e <;> intro h <;> cases h
  rename_i hne hact
  exact ⟨_, _, _, hact, hne⟩

theorem slotAct_eq_shutdown {s : Slot} {e : Trans β} (h : slotAct s e = .shutdown) :
    ∃ posted, e.act = .onShutdown s posted := by
  revert h
  fun_cases slotAct s e <;> intro h <;> cases h
  rename_i hact
  exact ⟨_, hact⟩

theorem slotAct_eq_asyncClose {s : Slot} {e : Trans β} (h : slotAct s e = .asyncClose) :
    ∃ posted, e.act = .udpAsyncClose s posted := by
  revert h
  fun_cases slotAct s e <;> intro h <;> cases h
  rename_i hact
  exact ⟨_, hact⟩

/-! ## How the writes of the adapter look from a slot -/

namespace Adapter

variable (σ : Adapter β) (s s' : Slot)

theorem view_modify_of_ne {s s' : Slot} (h : s' ≠ s) (f : UvConn β → UvConn β) :
    (σ.modify s f).view s' = σ.view s' := by
  simp [view, modify_sockets, h]

/-- A write that keeps tag, state and protocol is invisible. -/
theorem view_modify_of_frame {f : UvConn β → UvConn β} (htag : ∀ c, (f c).tag = c.tag)
    (hstate : ∀ c, (f c).state = c.state) (htcp : ∀ c, (f c).isTcp = c.isTcp) :
    (σ.modify s f).view s' = σ.view s' := by
  by_cases h : s' = s
  · subst h
    simp [view, modify_sockets, htag, hstate, htcp]
  · exact view_modify_of_ne σ h f

@[simp] theorem view_setSocketState (st : SocketState) :
    (σ.setSocketState s st).view s' =
      if s' = s then { σ.view s' with state := st } else σ.view s' := by
  by_cases h : s' = s
  · subst h
    simp [view, setSocketState_sockets]
  · simp [view, setSocketState_sockets, h]

@[simp] theorem view_clearTag :
    (σ.clearTag s).view s' = if s' = s then { σ.view s' with tag := 0 } else σ.view s' := by
  by_cases h : s' = s
  · subst h
    simp [view, clearTag_sockets]
  · simp [view, clearTag_sockets, h]

@[simp] theorem view_cbToNwTask (posted : Bool) (id : EventId) (n : Nat) :
    (σ.cbToNwTask posted id s n).view s' = σ.view s' := by
  simp [view]

theorem view_released :
    (σ.view s).Released ↔ (σ.sockets s).tag = 0 ∨ (σ.sockets s).state = .closed := Iff.rfl

theorem isFree_iff : (σ.sockets s).isFree = true ↔ (σ.view s).Free := by
  simp [UvConn.isFree, SlotView.Free, view]

/-- `CHECK_SOCKET_ID` in terms of the slot. -/
theorem checkSocketId_eq_some {σ : Adapter β} {id : Int} {tag : UInt64} {s : Slot} :
    σ.checkSocketId id tag = some s ↔
      slotOf id = some s ∧ ¬ (σ.view s).Released ∧ (σ.view s).tag = tag := by
  unfold checkSocketId
  cases hid : slotOf id with
  | none => simp
  | some s₀ =>
    simp only [view_released, Option.some.injEq]
    split
    · rename_i h
      simp only [reduceCtorEq, false_iff, not_and]
      rintro rfl h'
      exact absurd h h'
    · rename_i h
      split
      · rename_i htag
        simp only [reduceCtorEq, false_iff, not_and]
        rintro rfl - h'
        exact htag h'
      · rename_i htag
        simp only [Option.some.injEq]
        constructor
        · rintro rfl
          exact ⟨rfl, h, not_not.1 htag⟩
        · exact fun h' => h'.1

/-- A call that `CHECK_SOCKET_ID` turns away finds a slot it may not touch. -/
theorem checkSocketId_eq_none {σ : Adapter β} {id : Int} {tag : UInt64}
    (h : σ.checkSocketId id tag = none) {s : Slot} (hs : slotOf id = some s) :
    (σ.view s).Released ∨ (σ.view s).tag ≠ tag := by
  by_contra hc
  rw [not_or, not_not] at hc
  rw [checkSocketId_eq_some.2 ⟨hs, hc⟩] at h
  exact absurd h (by simp)

theorem view_submit_onConnect : (σ.submit (.onConnect s)).view s' =
    if s' = s then { σ.view s' with connects := (σ.view s').connects + 1 } else σ.view s' := by
  by_cases h : s' = s
  · subst h
    simp [view, List.count_append, Nat.add_right_comm]
  · simp [view, List.count_append, h, Ne.symm h]

theorem view_submit_udpConnectAsync : (σ.submit (.udpConnectAsync s)).view s' =
    if s' = s then { σ.view s' with connects := (σ.view s').connects + 1 } else σ.view s' := by
  by_cases h : s' = s
  · subst h
    simp [view, List.count_append, Nat.add_assoc]
  · simp [view, List.count_append, h, Ne.symm h]

theorem view_submit_onShutdown : (σ.submit (.onShutdown s)).view s' =
    if s' = s then { σ.view s' with shutdowns := (σ.view s').shutdowns + 1 } else σ.view s' := by
  by_cases h : s' = s
  · subst h
    simp [view, List.count_append]
  · simp [view, List.count_append, h, Ne.symm h]

theorem view_submit_udpAsyncClose : (σ.submit (.udpAsyncClose s)).view s' =
    if s' = s then { σ.view s' with closes := (σ.view s').closes + 1 } else σ.view s' := by
  by_cases h : s' = s
  · subst h
    simp [view, List.count_append]
  · simp [view, List.count_append, h, Ne.symm h]

theorem view_closeSocket (ret : Int) : (σ.closeSocket s ret).1.view s' =
    if s' = s then (σ.view s').requestClose (ret = 0) else σ.view s' := by
  have htcp : (σ.view s).isTcp = (σ.sockets s).isTcp := rfl
  unfold closeSocket SlotView.requestClose
  by_cases h : s' = s
  · subst h
    by_cases hret : ret = 0 <;> by_cases ht : (σ.sockets s').isTcp
    · simp [hret, ht, htcp, view_submit_onShutdown]
    · simp [hret, ht, htcp, view_submit_udpAsyncClose, view_modify_of_frame]
    · simp [hret, ht]
    · simp [hret, ht, view_modify_of_frame]
  · by_cases hret : ret = 0 <;> by_cases ht : (σ.sockets s).isTcp
    · simp [hret, ht, h, view_submit_onShutdown]
    · simp [hret, ht, h, view_submit_udpAsyncClose, view_modify_of_frame]
    · simp [hret, ht, h]
    · simp [hret, ht, h, view_modify_of_frame]

/-! ### The operations -/

theorem findFree_free {σ : Adapter β} {s : Slot} (h : σ.findFree = some s) : (σ.view s).Free := by
  have := List.find?_some h
  exact (isFree_iff σ s).1 this

/-- What `libuv_create_socket` does to each slot. -/
theorem view_create {s₀ : Slot} (hf : σ.findFree = some s₀) (isTcp : Bool) (param : Nat)
    (isIpv6 : Bool) : (σ.libuvCreateSocket isTcp param isIpv6).1.view s' =
      if s' = s₀ then { σ.view s' with tag := σ.socketTagCounter, state := .used, isTcp := isTcp }
      else σ.view s' := by
  have hf' : ({ σ with socketTagCounter := σ.socketTagCounter + 1 } : Adapter β).findFree =
      some s₀ := hf
  simp only [libuvCreateSocket, hf']
  by_cases h : s' = s₀
  · subst h
    simp [view, modify_sockets, UvConn.allocate]
  · simp [view, modify_sockets, h]

theorem view_cleanOne (id : Int) : (σ.cleanOne id).view s' =
    if slotOf id = some s' then (σ.view s').cleaned else σ.view s' := by
  unfold cleanOne
  cases hid : slotOf id with
  | none => simp
  | some s₀ =>
    simp only [Option.some.injEq, ← view_released]
    by_cases hs : s₀ = s'
    · subst hs
      rw [if_pos rfl, SlotView.cleaned]
      split
      · simp [view, modify_sockets, UvConn.reset]
      · rfl
    · rw [if_neg hs]
      split
      · exact view_modify_of_ne σ (Ne.symm hs) _
      · rfl

/-- Cleaning a slot twice is cleaning it once. -/
theorem cleaned_cleaned (v : SlotView) : v.cleaned.cleaned = v.cleaned := by
  unfold SlotView.cleaned
  by_cases hr : v.Released
  · rw [if_pos hr]
    split <;> rfl
  · rw [if_neg hr, if_neg hr]

theorem view_clean (list : List Int) : (σ.libuvSocketClean list).view s' =
    if s' ∈ list.filterMap slotOf then (σ.view s').cleaned else σ.view s' := by
  unfold libuvSocketClean
  induction list generalizing σ with
  | nil => simp
  | cons id list ih =>
    rw [List.foldl_cons, ih, view_cleanOne]
    by_cases hid : slotOf id = some s'
    · have hmem : s' ∈ (id :: list).filterMap slotOf := by simp [hid]
      rw [if_pos hid, if_pos hmem, cleaned_cleaned, ite_self]
    · have hmem : s' ∈ (id :: list).filterMap slotOf ↔ s' ∈ list.filterMap slotOf := by
        cases h : slotOf id with
        | none => simp [h]
        | some s₀ =>
          have hne : s' ≠ s₀ := by
            rintro rfl
            exact hid h
          simp [h, hne]
      rw [if_neg hid]
      simp only [hmem]

theorem view_receive {σ σ' : Adapter β} {id : Int} {tag : UInt64} {buf : Bool} {len : UInt32}
    {r : Received β} (h : σ.libuvSocketReceive id tag buf len = some (σ', r)) (s' : Slot) :
    σ'.view s' = σ.view s' := by
  obtain ⟨rfl, -⟩ | ⟨s, n, -, -, -, -, rfl⟩ | ⟨s, d, ds, n, -, -, -, -, rfl⟩ :=
    libuvSocketReceive_cases h
  · rfl
  · exact view_modify_of_frame _ _ _ (fun _ => rfl) (fun _ => rfl) (fun _ => rfl)
  · exact view_modify_of_frame _ _ _ (fun _ => rfl) (fun _ => rfl) (fun _ => rfl)

/-! ### The callbacks -/

theorem view_onConnect (status readRet : Int) (posted : Bool) :
    (σ.onConnect s status readRet posted).view s' =
      if s' = s then { σ.view s' with state := if status = 0 then .connected else .closed }
      else σ.view s' := by
  unfold onConnect
  by_cases hst : status = 0
  · have hread : ∀ τ : Adapter β, (if readRet ≠ 0 then τ
        else if (τ.sockets s).isTcp then
          τ.modify s fun c => { c with tcp := { c.tcp with reading := true } }
        else τ.modify s fun c => { c with udp := { c.udp with reading := true } }).view s'
          = τ.view s' := by
      intro τ
      split
      · rfl
      · split <;> exact view_modify_of_frame _ _ _ (fun _ => rfl) (fun _ => rfl) (fun _ => rfl)
    rw [if_neg (by simpa using hst), if_pos hst, hread, view_cbToNwTask, view_setSocketState]
  · rw [if_pos hst, if_neg hst, view_cbToNwTask, view_setSocketState]

theorem view_onShutdown (posted : Bool) : (σ.onShutdown s posted).view s' =
    if s' = s then (σ.view s').shut else σ.view s' := by
  unfold Adapter.onShutdown SlotView.shut
  simp only [← view_released]
  by_cases h : s' = s
  · subst h
    rw [if_pos rfl]
    split
    · rfl
    · simp [SlotView.finish]
  · rw [if_neg h]
    split <;> simp [h]

theorem view_onClose (posted : Bool) : (σ.onClose s posted).view s' =
    if s' = s then (σ.view s').closeDone else σ.view s' := by
  unfold onClose SlotView.closeDone
  simp only [← view_released]
  by_cases h : s' = s
  · subst h
    rw [if_pos rfl]
    split
    · simp
    · simp [SlotView.finish]
  · rw [if_neg h]
    split <;> simp [h]

theorem view_onSent (len : UInt32) (status : Int) (posted : Bool) :
    (σ.onSent s len status posted).view s' = σ.view s' := by
  unfold Adapter.onSent
  split <;> simp

@[simp] theorem view_stopReading (r : ReadResult β) :
    (stopReading σ s r).view s' = σ.view s' := by
  cases r with
  | eof =>
    unfold stopReading
    exact view_modify_of_frame _ _ _ (fun _ => rfl) (fun _ => rfl) (fun _ => rfl)
  | error => rfl
  | data _ => rfl

theorem view_onRecv_eof (room posted : Bool) : (σ.onRecv s .eof room posted).view s' =
    if s' = s then (σ.view s').remoteClosed else σ.view s' := by
  have hstate : (σ.view s).state = (σ.sockets s).state := rfl
  simp only [onRecv, SlotView.remoteClosed]
  by_cases h : s' = s
  · subst h
    by_cases hcl : (σ.sockets s').state = .closed
    · simp [hcl, hstate]
    · by_cases hcg : (σ.sockets s').state = .closing <;> simp [hcl, hcg, hstate]
  · split
    · simp
    · split <;> simp [h]

theorem view_onRecv_error (room posted : Bool) : (σ.onRecv s .error room posted).view s' =
    if s' = s then (σ.view s').readFailed else σ.view s' := by
  have hstate : (σ.view s).state = (σ.sockets s).state := rfl
  simp only [onRecv, SlotView.readFailed]
  by_cases h : s' = s
  · subst h
    by_cases hcl : (σ.sockets s').state = .closed <;> simp [hcl, hstate]
  · split <;> simp [h]

theorem view_onRecv_data (bytes : List β) (room posted : Bool) :
    (σ.onRecv s (.data bytes) room posted).view s' = σ.view s' := by
  cases bytes with
  | nil => rfl
  | cons b bs =>
    simp only [onRecv]
    split
    · rw [view_cbToNwTask]
      exact view_modify_of_frame _ _ _ (fun _ => rfl) (fun _ => rfl) (fun _ => rfl)
    · split
      · rw [view_cbToNwTask]
        exact view_modify_of_frame _ _ _ (fun _ => rfl) (fun _ => rfl) (fun _ => rfl)
      · rw [view_cbToNwTask]

theorem view_onRecvUdp (d : Option (UdpData β)) (room posted : Bool) :
    (σ.onRecvUdp s d room posted).view s' = σ.view s' := by
  unfold onRecvUdp
  split
  · rfl
  · split
    · rfl
    · split
      · rw [view_cbToNwTask]
        exact view_modify_of_frame _ _ _ (fun _ => rfl) (fun _ => rfl) (fun _ => rfl)
      · rfl

/-! ### Taking a callback off the list -/

theorem view_erase_onConnect (h : Callback.onConnect s ∈ σ.pending) :
    ({ σ with pending := σ.pending.erase (.onConnect s) } : Adapter β).view s' =
      if s' = s then { σ.view s' with connects := (σ.view s').connects - 1 } else σ.view s' := by
  by_cases hs : s' = s
  · subst hs
    have hpos := List.count_pos_iff.2 h
    simp only [view, List.count_erase_self, List.count_erase_of_ne, ne_eq, reduceCtorEq,
      not_false_eq_true, if_true, SlotView.mk.injEq, true_and, and_true]
    omega
  · simp [view, hs]

theorem view_erase_udpConnectAsync (h : Callback.udpConnectAsync s ∈ σ.pending) :
    ({ σ with pending := σ.pending.erase (.udpConnectAsync s) } : Adapter β).view s' =
      if s' = s then { σ.view s' with connects := (σ.view s').connects - 1 } else σ.view s' := by
  by_cases hs : s' = s
  · subst hs
    have hpos := List.count_pos_iff.2 h
    simp only [view, List.count_erase_self, List.count_erase_of_ne, ne_eq, reduceCtorEq,
      not_false_eq_true, if_true, SlotView.mk.injEq, true_and, and_true]
    omega
  · simp [view, hs]

theorem view_erase_onShutdown :
    ({ σ with pending := σ.pending.erase (.onShutdown s) } : Adapter β).view s' =
      if s' = s then { σ.view s' with shutdowns := (σ.view s').shutdowns - 1 } else σ.view s' := by
  by_cases hs : s' = s
  · subst hs
    simp [view]
  · simp [view, hs]

theorem view_erase_udpAsyncClose :
    ({ σ with pending := σ.pending.erase (.udpAsyncClose s) } : Adapter β).view s' =
      if s' = s then { σ.view s' with closes := (σ.view s').closes - 1 } else σ.view s' := by
  by_cases hs : s' = s
  · subst hs
    simp [view]
  · simp [view, hs]

theorem view_erase_onSent (len : UInt32) :
    ({ σ with pending := σ.pending.erase (.onSent s len) } : Adapter β).view s' = σ.view s' := by
  simp [view]

theorem view_erase_onSentUdp (len : UInt32) :
    ({ σ with pending := σ.pending.erase (.onSentUdp s len) } : Adapter β).view s' = σ.view s' := by
  simp [view]

end Adapter

/-! ## The simulation -/

section

variable {σ σ' : Adapter β} (s : Slot)

theorem view_step_create {isTcp : Bool} {param : Nat} {isIpv6 : Bool} {o : Answer β}
    (h : step σ (.create isTcp param isIpv6) = some (σ', o)) :
    (σ.view s).step (slotAct s ⟨σ, .create isTcp param isIpv6, o, σ'⟩) = some (σ'.view s) := by
  cases h
  cases hf : σ.findFree with
  | none =>
    have hf' : ({ σ with socketTagCounter := σ.socketTagCounter + 1 } : Adapter β).findFree =
        none := hf
    simp [slotAct, libuvCreateSocket, hf', SlotView.step, view]
  | some s₀ =>
    have hf' : ({ σ with socketTagCounter := σ.socketTagCounter + 1 } : Adapter β).findFree =
        some s₀ := hf
    have hout : (σ.libuvCreateSocket isTcp param isIpv6).2 =
        ((s₀.val : Int), some σ.socketTagCounter) := by
      simp [libuvCreateSocket, hf']
    rw [view_create σ s hf]
    by_cases hs : s = s₀
    · subst hs
      simp [slotAct, hout, SlotView.step, findFree_free hf]
    · have hval : ¬ (s₀.val : Int) = s.val := fun hc => hs (Fin.ext (by omega)).symm
      simp [slotAct, hout, SlotView.step, hs, hval]

theorem view_step_connect {id : Int} {tag : UInt64} {ret : Int} {o : Answer β}
    (h : step σ (.connect id tag ret) = some (σ', o)) :
    (σ.view s).step (slotAct s ⟨σ, .connect id tag ret, o, σ'⟩) = some (σ'.view s) := by
  cases h
  cases hc : σ.checkSocketId id tag with
  | none => simp [slotAct, libuvSocketConnect, hc, SlotView.step]
  | some s₀ =>
    obtain ⟨hid, hrel, htag⟩ := checkSocketId_eq_some.1 hc
    by_cases hret : ret = 0
    · by_cases hs : s₀ = s
      · subst hs
        by_cases ht : (σ.sockets s₀).isTcp <;>
          simp [slotAct, libuvSocketConnect, hc, hret, hid, ht, SlotView.step, hrel, htag,
            view_submit_onConnect, view_submit_udpConnectAsync]
      · by_cases ht : (σ.sockets s₀).isTcp <;>
          simp [slotAct, libuvSocketConnect, hc, hret, hid, ht, hs, Ne.symm hs, SlotView.step,
            view_submit_onConnect, view_submit_udpConnectAsync]
    · simp [slotAct, libuvSocketConnect, hc, hret, SlotView.step]

theorem view_step_disconnect {id : Int} {tag : UInt64} {ret : Int} {o : Answer β}
    (h : step σ (.disconnect id tag ret) = some (σ', o)) :
    (σ.view s).step (slotAct s ⟨σ, .disconnect id tag ret, o, σ'⟩) = some (σ'.view s) := by
  cases h
  cases hc : σ.checkSocketId id tag with
  | none =>
    simp only [slotAct, libuvSocketDisconnect, hc]
    split
    · rename_i hid
      simp [SlotView.step, checkSocketId_eq_none hc hid]
    · rfl
  | some s₀ =>
    obtain ⟨hid, hrel, htag⟩ := checkSocketId_eq_some.1 hc
    have hst : ¬ (σ.sockets s₀).state = .closed := fun hc => hrel (Or.inr hc)
    by_cases hs : s₀ = s
    · subst hs
      simp [slotAct, libuvSocketDisconnect, hc, hid, hst, SlotView.step, hrel, htag,
        view_closeSocket]
    · simp [slotAct, libuvSocketDisconnect, hc, hid, hst, hs, Ne.symm hs, SlotView.step,
        view_closeSocket]

theorem view_step_close {id : Int} {tag : UInt64} {ret : Int} {o : Answer β}
    (h : step σ (.close id tag ret) = some (σ', o)) :
    (σ.view s).step (slotAct s ⟨σ, .close id tag ret, o, σ'⟩) = some (σ'.view s) := by
  cases h
  cases hc : σ.checkSocketId id tag with
  | none =>
    simp only [slotAct, libuvSocketClose, hc]
    split
    · rename_i hid
      simp [SlotView.step, checkSocketId_eq_none hc hid]
    · rfl
  | some s₀ =>
    obtain ⟨hid, hrel, htag⟩ := checkSocketId_eq_some.1 hc
    by_cases hs : s₀ = s
    · subst hs
      simp [slotAct, libuvSocketClose, hc, hid, ← view_released, SlotView.step, hrel, htag,
        view_closeSocket]
    · simp [slotAct, libuvSocketClose, hc, hid, ← view_released, hrel, hs, Ne.symm hs,
        SlotView.step, view_closeSocket]

theorem view_step_forceClose {id ret : Int} {o : Answer β}
    (h : step σ (.forceClose id ret) = some (σ', o)) :
    (σ.view s).step (slotAct s ⟨σ, .forceClose id ret, o, σ'⟩) = some (σ'.view s) := by
  cases h
  cases hid : slotOf id with
  | none => simp [slotAct, libuvSocketForceClose, hid, SlotView.step]
  | some s₀ =>
    by_cases hs : s₀ = s
    · subst hs
      by_cases hrel : (σ.view s₀).Released <;>
        simp [slotAct, libuvSocketForceClose, hid, ← view_released, hrel, SlotView.step,
          view_closeSocket]
    · by_cases hrel : (σ.view s₀).Released <;>
        simp [slotAct, libuvSocketForceClose, hid, ← view_released, hrel, hs, Ne.symm hs,
          SlotView.step, view_closeSocket]

theorem view_step_onConnect {s₀ : Slot} {status readRet : Int} {posted : Bool} {o : Answer β}
    (h : step σ (.onConnect s₀ status readRet posted) = some (σ', o)) :
    (σ.view s).step (slotAct s ⟨σ, .onConnect s₀ status readRet posted, o, σ'⟩) = some (σ'.view s) := by
  simp only [step] at h
  obtain ⟨hmem, rfl, -⟩ := fire_eq_some h
  have hpos := List.count_pos_iff.2 hmem
  rw [view_onConnect, view_erase_onConnect _ _ _ hmem]
  by_cases hs : s = s₀
  · subst hs
    have hne : (σ.view s).connects ≠ 0 := by simp only [view]; omega
    by_cases hst : status = 0 <;> simp [slotAct, SlotView.step, hst, hne]
  · simp [slotAct, SlotView.step, hs, Ne.symm hs]

theorem view_step_udpConnectAsync {s₀ : Slot} {readRet : Int} {posted : Bool} {o : Answer β}
    (h : step σ (.udpConnectAsync s₀ readRet posted) = some (σ', o)) :
    (σ.view s).step (slotAct s ⟨σ, .udpConnectAsync s₀ readRet posted, o, σ'⟩) = some (σ'.view s) := by
  simp only [step] at h
  obtain ⟨hmem, rfl, -⟩ := fire_eq_some h
  have hpos := List.count_pos_iff.2 hmem
  rw [view_onConnect, view_erase_udpConnectAsync _ _ _ hmem]
  by_cases hs : s = s₀
  · subst hs
    have hne : (σ.view s).connects ≠ 0 := by simp only [view]; omega
    simp [slotAct, SlotView.step, hne]
  · simp [slotAct, SlotView.step, hs, Ne.symm hs]

theorem view_step_onShutdown {s₀ : Slot} {posted : Bool} {o : Answer β}
    (h : step σ (.onShutdown s₀ posted) = some (σ', o)) :
    (σ.view s).step (slotAct s ⟨σ, .onShutdown s₀ posted, o, σ'⟩) = some (σ'.view s) := by
  simp only [step] at h
  obtain ⟨hmem, rfl, -⟩ := fire_eq_some h
  have hpos := List.count_pos_iff.2 hmem
  rw [view_onShutdown, view_erase_onShutdown]
  by_cases hs : s = s₀
  · subst hs
    have hne : (σ.view s).shutdowns ≠ 0 := by simp only [view]; omega
    simp [slotAct, SlotView.step, hne]
  · simp [slotAct, SlotView.step, hs, Ne.symm hs]

theorem view_step_udpAsyncClose {s₀ : Slot} {posted : Bool} {o : Answer β}
    (h : step σ (.udpAsyncClose s₀ posted) = some (σ', o)) :
    (σ.view s).step (slotAct s ⟨σ, .udpAsyncClose s₀ posted, o, σ'⟩) = some (σ'.view s) := by
  simp only [step] at h
  obtain ⟨hmem, rfl, -⟩ := fire_eq_some h
  have hpos := List.count_pos_iff.2 hmem
  rw [view_onClose, view_erase_udpAsyncClose]
  by_cases hs : s = s₀
  · subst hs
    have hne : (σ.view s).closes ≠ 0 := by simp only [view]; omega
    simp [slotAct, SlotView.step, hne]
  · simp [slotAct, SlotView.step, hs, Ne.symm hs]

theorem view_step_onRecv {s₀ : Slot} {r : ReadResult β} {room posted : Bool} {o : Answer β}
    (h : step σ (.onRecv s₀ r room posted) = some (σ', o)) :
    (σ.view s).step (slotAct s ⟨σ, .onRecv s₀ r room posted, o, σ'⟩) = some (σ'.view s) := by
  obtain ⟨-, rfl, -⟩ := step_onRecv_eq_some h
  cases r with
  | eof =>
    rw [view_onRecv_eof, view_stopReading]
    by_cases hs : s = s₀
    · subst hs
      simp [slotAct, SlotView.step]
    · simp [slotAct, SlotView.step, hs, Ne.symm hs]
  | error =>
    rw [view_onRecv_error, view_stopReading]
    by_cases hs : s = s₀
    · subst hs
      simp [slotAct, SlotView.step]
    · simp [slotAct, SlotView.step, hs, Ne.symm hs]
  | data bytes =>
    rw [view_onRecv_data, view_stopReading]
    rfl

end

/-- **A step of the adapter, seen from a slot.** -/
theorem view_step {σ σ' : Adapter β} {op : Op β} {o : Answer β} (h : step σ op = some (σ', o))
    (s : Slot) : (σ.view s).step (slotAct s ⟨σ, op, o, σ'⟩) = some (σ'.view s) := by
  cases op with
  | create isTcp param isIpv6 => exact view_step_create s h
  | connect id tag ret => exact view_step_connect s h
  | disconnect id tag ret => exact view_step_disconnect s h
  | close id tag ret => exact view_step_close s h
  | forceClose id ret => exact view_step_forceClose s h
  | receive id tag buf len =>
    simp only [step, Option.map_eq_some_iff, Prod.mk.injEq] at h
    obtain ⟨⟨τ, r⟩, hr, rfl, -⟩ := h
    simp [slotAct, SlotView.step, view_receive hr]
  | send id tag len ret =>
    cases h
    have hsend : (σ.libuvSocketSend id tag len ret).1.view s = σ.view s := by
      unfold libuvSocketSend
      repeat' split
      all_goals simp [view, List.count_append]
    simp only [slotAct, SlotView.step, hsend]
  | check id tag => cases h; rfl
  | clean list =>
    cases h
    by_cases hs : s ∈ list.filterMap slotOf
    · simp only [slotAct, if_pos hs, SlotView.step, view_clean]
    · simp only [slotAct, if_neg hs, SlotView.step, view_clean]
  | onConnect s₀ status readRet posted => exact view_step_onConnect s h
  | udpConnectAsync s₀ readRet posted => exact view_step_udpConnectAsync s h
  | onShutdown s₀ posted => exact view_step_onShutdown s h
  | udpAsyncClose s₀ posted => exact view_step_udpAsyncClose s h
  | onSent s₀ len status posted =>
    simp only [step] at h
    obtain ⟨-, rfl, -⟩ := fire_eq_some h
    rw [view_onSent, view_erase_onSent]
    rfl
  | onSentUdp s₀ len status posted =>
    simp only [step] at h
    obtain ⟨-, rfl, -⟩ := fire_eq_some h
    rw [view_onSent, view_erase_onSentUdp]
    rfl
  | onRecv s₀ r room posted => exact view_step_onRecv s h
  | onRecvUdp s₀ d room posted =>
    obtain ⟨-, rfl, -⟩ := step_onRecvUdp_eq_some h
    rw [view_onRecvUdp]
    rfl

/-- **Each slot is a machine of its own.**  Seen from any slot, every run of the
adapter is a run of the slot machine. -/
theorem simulates (β : Type) (s : Slot) :
    (machine β).Simulates SlotView.machine (fun σ => σ.view s) (slotAct s) where
  init := rfl
  step := by
    intro σ op σ' o h
    simp [SlotView.machine, view_step h s]

end Libuv
end LuatosPc
