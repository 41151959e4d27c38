import LuatosPc.Network.Callbacks
import LuatosPc.Network.Stream

/-!
# Closed sockets

A slot becomes `SC_CLOSED` while libuv may still owe it a connect callback or deliver
data to it.  The close callbacks and the two error branches of `on_recv` look at the
state first.  `on_connect` does not, and so makes a closed slot `SC_CONNECTED`; nor do
the data branches of `on_recv` and `on_recv_udp`, which announce data for it.

* `Late` — a connect that succeeds, or data that is announced.
* `StaysClosed` — the slot is closed, and no connect and no data is reported for it.
* `step_staysClosed` — one step from a closed slot: it stays closed unless the step is
  late.
* `closed_stays_closed` — so it is until the slot is handed out or cleaned, and
  `closed_gets_connected` — a connect that comes late.
-/

namespace LuatosPc
namespace Libuv

open Adapter

variable {β : Type}

/-! ## On the slot machine -/

/-- A closed slot leaves its state when it is handed out or cleaned, and when a connect
succeeds. -/
theorem SlotView.closed_step {v v' : SlotView} {a : SlotAct} (hv : v.state = .closed)
    (h : v.step a = some v') (hcreate : ∀ isTcp t, a ≠ .create isTcp t) (hclean : a ≠ .clean) :
    v'.state = .closed ↔ a ≠ .connected := by
  have hrel : v.Released := Or.inr hv
  cases a with
  | other =>
    cases h
    simpa using hv
  | create isTcp t => exact absurd rfl (hcreate isTcp t)
  | connect t =>
    simp only [SlotView.step, if_pos (Or.inl hrel : v.Released ∨ v.tag ≠ t)] at h
    exact absurd h (by simp)
  | close t accepted =>
    simp only [SlotView.step, if_pos (Or.inl hrel : v.Released ∨ v.tag ≠ t)] at h
    cases h
    simpa using hv
  | forceClose accepted =>
    simp only [SlotView.step, if_pos hrel] at h
    cases h
    simpa using hv
  | clean => exact absurd rfl hclean
  | connected =>
    simp only [SlotView.step, Option.ite_none_left_eq_some, Option.some.injEq] at h
    obtain ⟨-, rfl⟩ := h
    simp
  | connectFailed =>
    simp only [SlotView.step, Option.ite_none_left_eq_some, Option.some.injEq] at h
    obtain ⟨-, rfl⟩ := h
    simp
  | shutdown =>
    simp only [SlotView.step, Option.ite_none_left_eq_some, Option.some.injEq, shut] at h
    rw [if_pos (by exact hrel)] at h
    obtain ⟨-, rfl⟩ := h
    simpa using hv
  | asyncClose =>
    simp only [SlotView.step, Option.ite_none_left_eq_some, Option.some.injEq, closeDone] at h
    rw [if_pos (by exact hrel)] at h
    obtain ⟨-, rfl⟩ := h
    simpa using hv
  | eof =>
    simp only [SlotView.step, remoteClosed, if_pos (Or.inl hv : _ ∨ v.state = .closing)] at h
    cases h
    simpa using hv
  | readError =>
    simp only [SlotView.step, readFailed, if_pos hv] at h
    cases h
    simpa using hv

/-! ## On the adapter -/

/-- A connect of slot `s` succeeds. -/
def Connects (s : Slot) (e : Trans β) : Prop :=
  (∃ readRet posted, e.act = .onConnect s 0 readRet posted) ∨
    ∃ readRet posted, e.act = .udpConnectAsync s readRet posted

/-- Data for slot `s` arrives, is stored and can be announced. -/
def Announces (s : Slot) (e : Trans β) : Prop :=
  (∃ b bs room, e.act = .onRecv s (.data (b :: bs)) room true ∧
    ((e.src.sockets s).recvBuff = none ∨ room = true)) ∨
  ∃ d, e.act = .onRecvUdp s (some d) true true ∧ d.data ≠ []

/-- What comes too late for a closed slot. -/
def Late (s : Slot) (e : Trans β) : Prop := Connects s e ∨ Announces s e

/-- The slot is closed after the transition, which reports no connect and no data. -/
structure StaysClosed (s : Slot) (e : Trans β) : Prop where
  state : (e.dst.sockets s).state = .closed
  noConnect : ∀ ev, Emits e ev → ev.slot = s → ev.id ≠ .socketConnectOk
  noData : ∀ ev, Emits e ev → ev.slot = s → ev.id ≠ .socketRxNew

theorem slotAct_eq_connected_iff {s : Slot} {e : Trans β} :
    slotAct s e = .connected ↔ Connects s e := by
  constructor
  · fun_cases slotAct s e <;> intro h <;> cases h
    · rename_i readRet posted hact
      exact Or.inl ⟨readRet, posted, hact⟩
    · rename_i readRet posted hact
      exact Or.inr ⟨readRet, posted, hact⟩
  · rintro (⟨readRet, posted, hact⟩ | ⟨readRet, posted, hact⟩)
    · simp [slotAct, hact]
    · simp [slotAct, hact]

theorem slotAct_eq_clean {s : Slot} {e : Trans β} (h : slotAct s e = .clean) :
    ∃ list, e.act = .clean list ∧ ∃ id ∈ list, slotOf id = some s := by
  revert h
  fun_cases slotAct s e <;> intro h <;> cases h
  rename_i list hact hmem
  exact ⟨list, hact, List.mem_filterMap.1 hmem⟩

/-- Data is reported when it is announced, and only then. -/
theorem emits_rxNew_iff {e : Trans β} (h : step e.src e.act = some (e.dst, e.out)) (s : Slot) :
    (∃ ev, Emits e ev ∧ ev.slot = s ∧ ev.id = .socketRxNew) ↔ Announces s e := by
  constructor
  · rintro ⟨ev, hev, rfl, hid⟩
    have hmem := hev.mem_opEvents h
    generalize hact : e.act = op at hmem
    revert hmem
    fun_cases opEvents e.src op <;> intro hmem
    all_goals try exact absurd hmem List.not_mem_nil
    all_goals
      obtain ⟨rfl, hev⟩ := mem_eventFor.1 hmem
      rw [hev] at hid ⊢
      simp only [reduceCtorEq] at hid
    · exact absurd hid (by split <;> simp)
    · rename_i s room b bs hroom
      rw [Option.isNone_iff_eq_none] at hroom
      exact Or.inl ⟨b, bs, room, hact, hroom⟩
    · rename_i s d room hok
      rw [not_or, Bool.not_eq_false] at hok
      obtain ⟨hne, rfl⟩ := hok
      exact Or.inr ⟨d, hact, fun hnil => hne (by rw [hnil]; rfl)⟩
  · have hsend : ∀ n, opEvents e.src e.act = e.src.eventFor s true .socketRxNew n →
        ∃ ev, Emits e ev ∧ ev.slot = s ∧ ev.id = .socketRxNew := by
      intro n hevents
      refine ⟨⟨.socketRxNew, s, n, (e.src.sockets s).param, (e.src.sockets s).tag⟩,
        ⟨opEvents e.src e.act, step_events h, ?_⟩, rfl, rfl⟩
      rw [hevents, mem_eventFor]
      exact ⟨rfl, rfl⟩
    rintro (⟨b, bs, room, hact, hroom⟩ | ⟨d, hact, hne⟩)
    · refine hsend (b :: bs).length ?_
      rw [hact, opEvents, if_pos]
      rwa [Option.isNone_iff_eq_none]
    · refine hsend d.data.length ?_
      rw [hact, opEvents, if_neg]
      simpa using hne

/-- **One step from a closed slot**, which is neither handed out nor cleaned: the slot
stays closed unless the step is late. -/
theorem step_staysClosed {e : Trans β} (h : step e.src e.act = some (e.dst, e.out)) {s : Slot}
    (hsrc : (e.src.sockets s).state = .closed) (hend : ¬ Ends s e) :
    StaysClosed s e ↔ ¬ Late s e := by
  have hcreate : ∀ isTcp t, slotAct s e ≠ .create isTcp t := by
    intro isTcp t ha
    exact hend (Or.inl ⟨t, (slotAct_eq_create ha).2⟩)
  have hclean : slotAct s e ≠ .clean := by
    intro ha
    obtain ⟨list, hact, hmem⟩ := slotAct_eq_clean ha
    exact hend (Or.inr ⟨list, hact, hmem, Or.inr hsrc⟩)
  have hstate := SlotView.closed_step hsrc (view_step h s) hcreate hclean
  rw [Ne, slotAct_eq_connected_iff] at hstate
  constructor
  · rintro hstays (hconn | hdata)
    · exact hstate.1 hstays.state hconn
    · obtain ⟨ev, hev, hslot, hid⟩ := (emits_rxNew_iff h s).2 hdata
      exact hstays.noData ev hev hslot hid
  · intro hlate
    refine ⟨hstate.2 fun hconn => hlate (Or.inl hconn), ?_, ?_⟩
    · intro ev hev hslot hid
      have hconn := (hev.connectOk h hid).1
      rw [hslot] at hconn
      exact hlate (Or.inl (slotAct_eq_connected_iff.1 hconn))
    · intro ev hev hslot hid
      exact hlate (Or.inr ((emits_rxNew_iff h s).1 ⟨ev, hev, hslot, hid⟩))

/-- **A closed socket stays closed**, from a transition that leaves the slot closed and
as long as it is neither handed out nor cleaned, if and only if no connect of it
succeeds and no data for it is announced. -/
theorem closed_stays_closed {tr : List (Trans β)} {σ : Adapter β} (h : Run (machine β) tr σ)
    {pre post : List (Trans β)} {c : Trans β} (he : tr = pre ++ c :: post) {s : Slot}
    (hclosed : (c.dst.sockets s).state = .closed) (hends : ∀ e ∈ post, ¬ Ends s e) :
    (∀ e ∈ post, StaysClosed s e) ↔ ∀ e ∈ post, ¬ Late s e := by
  apply (h.path he).forall_iff (P := fun σ => (σ.sockets s).state = .closed) hends hclosed
  · intro σ op σ' o hσ hstep hend
    exact step_staysClosed (e := ⟨σ, op, o, σ'⟩) hstep hσ hend
  · intro σ op σ' o _ _ _ hstays
    exact hstays.state

/-- Slot 0 is connected and closed; the peer closes, too, and the owner asks again. -/
def closedOps : List (Op UInt8) :=
  [.create true 0 false, .connect 0 0xFAFB 0, .onConnect 0 0 0 true, .close 0 0xFAFB 0,
    .onShutdown 0 true, .onRecv 0 .eof true true, .connect 0 0xFAFB 0, .forceClose 0 0]

theorem closed_stays_closed_eof :
    (((machine UInt8).stateOf closedOps).sockets 0).state = .closed ∧
      ∀ e ∈ ((machine UInt8).traceOf closedOps).drop 5, StaysClosed 0 e := by
  have hexec : ((machine UInt8).exec (machine UInt8).init closedOps).isSome = true := by decide
  have hrun := Machine.run_exec hexec
  have h4 : 4 < ((machine UInt8).traceOf closedOps).length := by decide
  refine ⟨rfl, (closed_stays_closed hrun (Machine.traceOf_split h4) (s := 0) rfl ?_).2 ?_⟩
  · intro e he hends
    have hend := hends.mayEnd (hrun.step_of_mem (List.mem_of_mem_drop he))
    have hplain : ∀ op ∈ closedOps.drop 5, op.mayEnd = false := by decide
    rw [hplain _ (Machine.act_mem_of_mem_drop he)] at hend
    exact absurd hend Bool.false_ne_true
  · -- nothing connects and no data comes
    intro e he hlate
    have hmem := Machine.act_mem_of_mem_drop he
    rcases hlate with (⟨readRet, posted, hact⟩ | ⟨readRet, posted, hact⟩) |
      (⟨b, bs, room, hact, -⟩ | ⟨d, hact, -⟩)
    all_goals
      rw [hact] at hmem
      simp [closedOps] at hmem

/-- The owner closes slot 0 before it is connected, which `uv_shutdown` refuses; then
the connect succeeds. -/
def lateOps : List (Op UInt8) :=
  [.create true 0 false, .connect 0 0xFAFB 0, .close 0 0xFAFB (-107), .onConnect 0 0 0 true]

/-- Slot 0 is connected and closed; the peer still sends a byte. -/
def lateDataOps : List (Op UInt8) :=
  [.create true 0 false, .connect 0 0xFAFB 0, .onConnect 0 0 0 true, .close 0 0xFAFB 0,
    .onShutdown 0 true, .onRecv 0 (.data [0x68]) true true]

/-- In the first run the closed slot becomes `SC_CONNECTED` and `CONNECT_OK` is sent for
it, in the second `RX_NEW` is. -/
theorem closed_gets_connected :
    (Run (machine UInt8) ((machine UInt8).traceOf lateOps) ((machine UInt8).stateOf lateOps) ∧
      ∃ pre c e, (machine UInt8).traceOf lateOps = pre ++ [c, e] ∧
        (c.dst.sockets 0).state = .closed ∧ ¬ Ends 0 e ∧ (e.dst.sockets 0).state = .connected ∧
        Emits e ⟨.socketConnectOk, 0, 0, 0, 0xFAFB⟩) ∧
    Run (machine UInt8) ((machine UInt8).traceOf lateDataOps)
      ((machine UInt8).stateOf lateDataOps) ∧
      ∃ pre c e, (machine UInt8).traceOf lateDataOps = pre ++ [c, e] ∧
        (c.dst.sockets 0).state = .closed ∧ ¬ Ends 0 e ∧
        Emits e ⟨.socketRxNew, 0, 1, 0, 0⟩ := by
  have h2 : 2 < ((machine UInt8).traceOf lateOps).length := by decide
  have h3 : 3 < ((machine UInt8).traceOf lateOps).length := by decide
  have h4 : 4 < ((machine UInt8).traceOf lateDataOps).length := by decide
  have h5 : 5 < ((machine UInt8).traceOf lateDataOps).length := by decide
  refine ⟨⟨Machine.run_exec (by decide), ((machine UInt8).traceOf lateOps).take 2,
    ((machine UInt8).traceOf lateOps)[2], ((machine UInt8).traceOf lateOps)[3], ?_, rfl, ?_, rfl,
    ⟨_, rfl, List.mem_singleton.2 rfl⟩⟩, Machine.run_exec (by decide),
    ((machine UInt8).traceOf lateDataOps).take 4, ((machine UInt8).traceOf lateDataOps)[4],
    ((machine UInt8).traceOf lateDataOps)[5], ?_, rfl, ?_, ⟨_, rfl, List.mem_singleton.2 rfl⟩⟩
  · rfl
  · rintro (⟨t, ht⟩ | ⟨list, hact, -⟩)
    · cases ht
    · cases hact
  · rfl
  · rintro (⟨t, ht⟩ | ⟨list, hact, -⟩)
    · cases ht
    · cases hact

end Libuv
end LuatosPc
