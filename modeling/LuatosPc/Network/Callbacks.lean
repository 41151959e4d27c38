import LuatosPc.Network.Tags

/-!
# Whom a callback acts on

A libuv callback knows its slot by number only and reads the tag when it runs.
If the slot was handed out again in the meantime, the callback acts on a socket
that never asked for it.  `udp_async_close` shows how: a UDP socket that is
closed twice leaves a second callback behind, and the next owner of the slot is
told that it closed.

* `SlotView.Asked` — a callback owed to a slot was asked for with the slot's
  present tag; `SlotView.asked_run`, `asked` — that is so as long as slots are
  handed out with no callback owed.
* `callbacks_act_on_own_socket` — so every connect or close that a callback
  reports was asked for by the socket it is reported to, and
  `callback_closes_other_socket` — a run in which it was not.
-/

namespace LuatosPc
namespace Libuv

open Adapter

variable {β : Type}

/-! ## On the slot machine -/

namespace SlotView

/-- The slot is handed out with no callback owed, and no connect succeeds on a
slot without an owner. -/
def OwnOk (v : SlotView) : SlotAct → Prop
  | .create _ _ => v.connects = 0 ∧ v.shutdowns = 0 ∧ v.closes = 0
  | .connected => v.tag ≠ 0
  | _ => True

/-- The callbacks owed to a slot in use were asked for with its tag. -/
structure Asked (tr : List (Transition SlotView SlotAct Unit)) (v : SlotView) : Prop where
  connect : 0 < v.connects → v.tag ≠ 0 → ∃ e ∈ tr, e.act = .connect v.tag
  close : 0 < v.shutdowns ∨ 0 < v.closes → v.tag ≠ 0 → ∃ e ∈ tr, e.act = .close v.tag true

theorem Asked.step {tr : List (Transition SlotView SlotAct Unit)} {v v' : SlotView} {a : SlotAct}
    (hv : Asked tr v) (hok : v.OwnOk a) (h : v.step a = some v') :
    Asked (tr ++ [⟨v, a, (), v'⟩]) v' := by
  have hframe := step_frame h
  by_cases hcr : ∃ isTcp t, a = .create isTcp t
  · -- the slot is handed out with nothing owed
    obtain ⟨isTcp, t, rfl⟩ := hcr
    obtain ⟨h1, h2, h3⟩ := hok
    simp only [SlotView.step, Option.ite_none_right_eq_some, Option.some.injEq] at h
    obtain ⟨-, rfl⟩ := h
    constructor
    · intro hpos
      exact absurd hpos (by simp [h1])
    · intro hpos
      exact absurd hpos (by simp [h2, h3])
  · have htag : v'.tag ≠ 0 → v'.tag = v.tag := by
      intro hne
      rcases hframe.tag with ⟨isTcp, ha⟩ | heq | h0
      · exact absurd ⟨_, _, ha⟩ hcr
      · exact heq
      · exact absurd h0 hne
    constructor
    · intro hpos hne
      rcases hframe.connects with ⟨ha, heq⟩ | hle
      · exact ⟨⟨v, a, (), v'⟩, by simp, by rw [heq]; exact ha⟩
      · have heq := htag hne
        rw [heq] at hne ⊢
        obtain ⟨e, he, hact⟩ := hv.connect (by omega) hne
        exact ⟨e, by simp [he], hact⟩
    · intro hpos hne
      rcases hframe.closes with ⟨ha, heq⟩ | h0 | ⟨hle1, hle2⟩
      · exact ⟨⟨v, a, (), v'⟩, by simp, by rw [heq]; exact ha⟩
      · exact absurd h0 hne
      · have heq := htag hne
        rw [heq] at hne ⊢
        obtain ⟨e, he, hact⟩ := hv.close (by omega) hne
        exact ⟨e, by simp [he], hact⟩

/-- **A callback owed was asked for by the present owner**, over every run that
hands slots out with nothing owed. -/
theorem asked_run {tr : List (Transition SlotView SlotAct Unit)} {v : SlotView}
    (h : Run SlotView.machine tr v) (hok : ∀ e ∈ tr, e.src.OwnOk e.act) : Asked tr v := by
  refine h.history_invariant (I := Asked) (C := fun _ e => e.src.OwnOk e.act) ?_ ?_ ?_
  · intro pre e post he
    exact hok e (by simp [he])
  · constructor
    · intro hpos
      exact absurd hpos (by simp [SlotView.machine])
    · intro hpos
      exact absurd hpos (by simp [SlotView.machine])
  · intro tr v a v' o _ hv hstep hc
    exact hv.step hc (machine_step.1 hstep)

end SlotView

/-! ## On the adapter -/

/-- `libuv_socket_connect` is called on slot `s` with tag `t`. -/
def CallsConnect (e : Trans β) (s : Slot) (t : UInt64) : Prop :=
  ∃ id ret, e.act = .connect id t ret ∧ slotOf id = some s

/-- `libuv_socket_disconnect` or `libuv_socket_close` is called on slot `s` with
tag `t`. -/
def CallsClose (e : Trans β) (s : Slot) (t : UInt64) : Prop :=
  ∃ id ret, (e.act = .disconnect id t ret ∨ e.act = .close id t ret) ∧ slotOf id = some s

/-- The transition sends the event. -/
def Emits (e : Trans β) (ev : NwEvent) : Prop :=
  ∃ evs, e.dst.events = e.src.events ++ evs ∧ ev ∈ evs

/-- A slot is handed out when libuv owes it nothing, and no connect succeeds on a
slot without an owner. -/
def OwnOk (e : Trans β) : Prop :=
  match e.act with
  | .create .. => ∀ s, e.src.findFree = some s → Quiet s e.src
  | .onConnect s status _ _ => status = 0 → (e.src.sockets s).tag ≠ 0
  | .udpConnectAsync s _ _ => (e.src.sockets s).tag ≠ 0
  | _ => True

theorem OwnOk.slot {e : Trans β} (h : step e.src e.act = some (e.dst, e.out)) (hok : OwnOk e)
    (s : Slot) : (e.src.view s).OwnOk (slotAct s e) := by
  unfold OwnOk at hok
  fun_cases slotAct s e
  all_goals try exact trivial
  · rename_i hact t hout
    rw [hact] at hok
    exact (hok s (handsOut_step h hout).2.1).view
  · rename_i hact
    rw [hact] at hok
    exact hok rfl
  · rename_i hact
    rw [hact] at hok
    exact hok

/-- The callbacks owed to a slot of the adapter were asked for with its tag. -/
theorem asked {tr : List (Trans β)} {σ : Adapter β} (h : Run (machine β) tr σ)
    (hok : ∀ e ∈ tr, OwnOk e) (s : Slot) (htag : (σ.sockets s).tag ≠ 0) :
    (0 < (σ.view s).connects → ∃ e ∈ tr, CallsConnect e s (σ.sockets s).tag) ∧
    (0 < (σ.view s).shutdowns ∨ 0 < (σ.view s).closes →
      ∃ e ∈ tr, CallsClose e s (σ.sockets s).tag) := by
  have hasked := SlotView.asked_run ((simulates β s).run h) (by
    intro e' he'
    obtain ⟨e, he, rfl⟩ := List.mem_map.1 he'
    exact (hok e he).slot (h.step_of_mem he) s)
  constructor
  · intro hpos
    obtain ⟨e', he', hact⟩ := hasked.connect hpos htag
    obtain ⟨e, he, rfl⟩ := List.mem_map.1 he'
    exact ⟨e, he, slotAct_eq_connect hact⟩
  · intro hpos
    obtain ⟨e', he', hact⟩ := hasked.close hpos htag
    obtain ⟨e, he, rfl⟩ := List.mem_map.1 he'
    obtain ⟨id, ret, hcall, hid, -⟩ := slotAct_eq_close hact
    exact ⟨e, he, id, ret, hcall, hid⟩

theorem Emits.mem_opEvents {e : Trans β} (h : step e.src e.act = some (e.dst, e.out))
    {ev : NwEvent} (hev : Emits e ev) : ev ∈ opEvents e.src e.act := by
  obtain ⟨evs, heq, hmem⟩ := hev
  rw [step_events h] at heq
  rwa [List.append_cancel_left heq]

/-- Only a connect callback reports a connect. -/
theorem Emits.connectOk {e : Trans β} (h : step e.src e.act = some (e.dst, e.out)) {ev : NwEvent}
    (hev : Emits e ev) (hid : ev.id = .socketConnectOk) :
    slotAct ev.slot e = .connected ∧ ev.tag = (e.src.sockets ev.slot).tag := by
  have hmem := hev.mem_opEvents h
  generalize hact : e.act = op at hmem
  revert hmem
  fun_cases opEvents e.src op <;> intro hmem
  all_goals try exact absurd hmem List.not_mem_nil
  all_goals
    rw [(mem_eventFor.1 hmem).2] at hid ⊢
    simp only [reduceCtorEq] at hid
  · rename_i s status readRet posted
    have hst : status = 0 := by
      by_contra hne
      rw [if_neg hne] at hid
      exact absurd hid (by simp)
    exact ⟨by simp [slotAct, hact, hst], rfl⟩
  · exact ⟨by simp [slotAct, hact], rfl⟩

/-- The transition is a close callback that finds slot `s` in use with tag `t`,
and its event can be posted. -/
structure ReportsClose (e : Trans β) (s : Slot) (t : UInt64) : Prop where
  act : e.act = .onShutdown s true ∨ e.act = .udpAsyncClose s true
  inUse : ¬ (e.src.view s).Released
  tag : (e.src.sockets s).tag = t

theorem ReportsClose.slotAct {e : Trans β} {s : Slot} {t : UInt64} (h : ReportsClose e s t) :
    slotAct s e = .shutdown ∨ slotAct s e = .asyncClose := by
  rcases h.act with hact | hact
  · exact Or.inl (by simp [Libuv.slotAct, hact])
  · exact Or.inr (by simp [Libuv.slotAct, hact])

/-- Only a close callback that finds the slot in use reports a close. -/
theorem Emits.closeOk {e : Trans β} (h : step e.src e.act = some (e.dst, e.out)) {ev : NwEvent}
    (hev : Emits e ev) (hid : ev.id = .socketCloseOk) : ReportsClose e ev.slot ev.tag := by
  have hmem := hev.mem_opEvents h
  generalize hact : e.act = op at hmem
  revert hmem
  fun_cases opEvents e.src op <;> intro hmem
  all_goals try exact absurd hmem List.not_mem_nil
  all_goals
    obtain ⟨rfl, hev⟩ := mem_eventFor.1 hmem
    rw [hev] at hid ⊢
    simp only [reduceCtorEq] at hid
  · exact absurd hid (by split <;> simp)
  · rename_i hrel
    exact ⟨Or.inl hact, hrel, rfl⟩
  · rename_i hrel
    exact ⟨Or.inr hact, hrel, rfl⟩

section

variable {pre : List (Trans β)} {e : Trans β} {s : Slot}

/-- A connect callback that runs was owed, and its slot has the owner that asked
for it. -/
theorem connect_asked (hpre : Run (machine β) pre e.src) (hok : ∀ e' ∈ pre, OwnOk e')
    (hown : OwnOk e) (hstep : step e.src e.act = some (e.dst, e.out))
    (ha : slotAct s e = .connected) : ∃ e' ∈ pre, CallsConnect e' s (e.src.sockets s).tag := by
  have hview := view_step hstep s
  have howner := hown.slot hstep s
  rw [ha] at hview howner
  simp only [SlotView.step, Option.ite_none_left_eq_some] at hview
  exact (asked hpre hok s howner).1 (Nat.pos_of_ne_zero hview.1)

/-- A close callback that finds its slot in use was asked for by the owner. -/
theorem close_asked (hpre : Run (machine β) pre e.src) (hok : ∀ e' ∈ pre, OwnOk e')
    (hstep : step e.src e.act = some (e.dst, e.out))
    (ha : slotAct s e = .shutdown ∨ slotAct s e = .asyncClose) (hrel : ¬ (e.src.view s).Released) :
    ∃ e' ∈ pre, CallsClose e' s (e.src.sockets s).tag := by
  have hview := view_step hstep s
  refine (asked hpre hok s fun h0 => hrel (Or.inl h0)).2 ?_
  rcases ha with ha | ha
  · rw [ha] at hview
    simp only [SlotView.step, Option.ite_none_left_eq_some] at hview
    exact Or.inl (Nat.pos_of_ne_zero hview.1)
  · rw [ha] at hview
    simp only [SlotView.step, Option.ite_none_left_eq_some] at hview
    exact Or.inr (Nat.pos_of_ne_zero hview.1)

/-- Only a connect callback makes a slot connected, and it keeps the tag. -/
theorem connected_by_callback (hstep : step e.src e.act = some (e.dst, e.out))
    (hne : (e.src.sockets s).state ≠ .connected) (heq : (e.dst.sockets s).state = .connected) :
    slotAct s e = .connected ∧ (e.dst.sockets s).tag = (e.src.sockets s).tag := by
  have hview := view_step hstep s
  rcases (SlotView.step_frame hview).connected with ha | hst | hst
  · rw [ha] at hview
    simp only [SlotView.step, Option.ite_none_left_eq_some, Option.some.injEq] at hview
    exact ⟨ha, (congrArg SlotView.tag hview.2).symm⟩
  · exact absurd heq hst
  · exact absurd (hst.symm.trans heq) hne

/-- A close callback that changes the state of its slot found the slot in use. -/
theorem inUse_of_closed (hstep : step e.src e.act = some (e.dst, e.out))
    (ha : slotAct s e = .shutdown ∨ slotAct s e = .asyncClose)
    (hne : (e.src.sockets s).state ≠ .closed) (heq : (e.dst.sockets s).state = .closed) :
    ¬ (e.src.view s).Released := by
  intro hrel
  have hview := view_step hstep s
  apply hne
  rcases ha with ha | ha
  · rw [ha] at hview
    simp only [SlotView.step, Option.ite_none_left_eq_some, Option.some.injEq] at hview
    rw [SlotView.shut, if_pos (by exact hrel)] at hview
    exact (congrArg SlotView.state hview.2).trans heq
  · rw [ha] at hview
    simp only [SlotView.step, Option.ite_none_left_eq_some, Option.some.injEq] at hview
    rw [SlotView.closeDone, if_pos (by exact hrel)] at hview
    exact (congrArg SlotView.state hview.2).trans heq

end

/-- **Callbacks act on the socket that asked for them.**  In every run that hands
slots out with nothing owed, each connect that is reported or made by a callback
was asked for with the tag it is reported to, and so was each close. -/
theorem callbacks_act_on_own_socket {tr : List (Trans β)} {σ : Adapter β}
    (h : Run (machine β) tr σ) (hok : ∀ e ∈ tr, OwnOk e) {pre post : List (Trans β)} {e : Trans β}
    (he : tr = pre ++ e :: post) :
    (∀ ev, Emits e ev → ev.id = .socketConnectOk → ∃ e' ∈ pre, CallsConnect e' ev.slot ev.tag) ∧
    (∀ s, (e.src.sockets s).state ≠ .connected → (e.dst.sockets s).state = .connected →
      ∃ e' ∈ pre, CallsConnect e' s (e.dst.sockets s).tag) ∧
    (∀ ev, Emits e ev → ev.id = .socketCloseOk → ∃ e' ∈ pre, CallsClose e' ev.slot ev.tag) ∧
    (∀ s posted, e.act = .onShutdown s posted ∨ e.act = .udpAsyncClose s posted →
      (e.src.sockets s).state ≠ .closed → (e.dst.sockets s).state = .closed →
      ∃ e' ∈ pre, CallsClose e' s (e.src.sockets s).tag) := by
  obtain ⟨hpre, hstep⟩ := h.split he
  have hown : OwnOk e := hok e (by simp [he])
  have hokPre : ∀ e' ∈ pre, OwnOk e' := fun e' he' => hok e' (by simp [he, he'])
  refine ⟨?_, ?_, ?_, ?_⟩
  · intro ev hev hid
    obtain ⟨ha, htag⟩ := hev.connectOk hstep hid
    rw [htag]
    exact connect_asked hpre hokPre hown hstep ha
  · intro s hne heq
    obtain ⟨ha, htag⟩ := connected_by_callback hstep hne heq
    rw [htag]
    exact connect_asked hpre hokPre hown hstep ha
  · intro ev hev hid
    have hrep := hev.closeOk hstep hid
    rw [← hrep.tag]
    exact close_asked hpre hokPre hstep hrep.slotAct hrep.inUse
  · intro s posted hact hne heq
    have ha : slotAct s e = .shutdown ∨ slotAct s e = .asyncClose := by
      rcases hact with hact | hact
      · exact Or.inl (by simp [slotAct, hact])
      · exact Or.inr (by simp [slotAct, hact])
    exact close_asked hpre hokPre hstep ha (inUse_of_closed hstep ha hne heq)

/-- A UDP socket is created, closed, and told so. -/
def udpCloseOps : List (Op UInt8) :=
  [.create false 0 false, .close 0 0xFAFB 0, .udpAsyncClose 0 true]

theorem callbacks_act_on_own_socket_udp :
    ∃ e ∈ ((machine UInt8).traceOf udpCloseOps).take 2, CallsClose e 0 0xFAFB := by
  have hexec : ((machine UInt8).exec (machine UInt8).init udpCloseOps).isSome = true := by decide
  have hok : (machine UInt8).Along (fun _ e => OwnOk e) [] (machine UInt8).init udpCloseOps :=
    ⟨fun s _ => ⟨List.not_mem_nil, List.not_mem_nil, List.not_mem_nil, List.not_mem_nil⟩, trivial,
      trivial, trivial⟩
  have h2 : 2 < ((machine UInt8).traceOf udpCloseOps).length := by decide
  have hsplit : (machine UInt8).traceOf udpCloseOps =
      ((machine UInt8).traceOf udpCloseOps).take 2 ++
        ((machine UInt8).traceOf udpCloseOps)[2] :: ((machine UInt8).traceOf udpCloseOps).drop 3 := by
    simp
  exact (callbacks_act_on_own_socket (Machine.run_exec hexec) (Machine.forall_mem_traceOf hok)
    hsplit).2.2.1 ⟨.socketCloseOk, 0, 0, 0, 0xFAFB⟩
    ⟨[⟨.socketCloseOk, 0, 0, 0, 0xFAFB⟩], rfl, by simp⟩ rfl

/-- A UDP socket is closed twice before the first callback runs; its slot is
handed out once more, and then the second callback runs. -/
def doubleCloseOps : List (Op UInt8) :=
  [Op.create false 0 false, Op.close 0 0xFAFB 0, Op.close 0 0xFAFB 0, Op.udpAsyncClose 0 true] ++
    List.replicate 8 (Op.create false 0 false) ++ [Op.udpAsyncClose 0 true]

/-- The new owner, which never asked for it, is told that it closed. -/
theorem callback_closes_other_socket :
    Run (machine UInt8) ((machine UInt8).traceOf doubleCloseOps)
        ((machine UInt8).stateOf doubleCloseOps) ∧
      ∃ pre e, (machine UInt8).traceOf doubleCloseOps = pre ++ [e] ∧
        Emits e ⟨.socketCloseOk, 0, 0, 0, 0xFB03⟩ ∧
        ∀ e' ∈ pre, (∀ s, ¬ CallsClose e' s 0xFB03) ∧ ∀ id ret, e'.act ≠ .forceClose id ret := by
  have h12 : 12 < ((machine UInt8).traceOf doubleCloseOps).length := by decide
  refine ⟨Machine.run_exec (by decide), ((machine UInt8).traceOf doubleCloseOps).take 12,
    ((machine UInt8).traceOf doubleCloseOps)[12], ?_, ⟨_, rfl, by decide⟩, ?_⟩
  · have hlen : ((machine UInt8).traceOf doubleCloseOps).length = 13 := by decide
    rw [List.take_append_getElem, List.take_of_length_le (by omega)]
  · intro e' he'
    have hmem := Machine.act_mem_of_mem_traceOf (List.mem_of_mem_take he')
    constructor
    · rintro s ⟨id, ret, hact | hact, -⟩
      · rw [hact] at hmem
        exact absurd hmem (by simp [doubleCloseOps])
      · rw [hact] at hmem
        exact absurd hmem (by simp [doubleCloseOps])
    · intro id ret hact
      rw [hact] at hmem
      exact absurd hmem (by simp [doubleCloseOps])

end Libuv
end LuatosPc
