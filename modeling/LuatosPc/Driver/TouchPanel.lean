import LuatosPc.Driver.TouchStream

/-!
# Touch events and the border of the panel

`tp_sdl_watch` replaces a position beyond the border by the last valid one, in a motion and in
a release.  In a press of the left button it does not look: whatever SDL reports is cut to 16
bits, stored, and from then on taken for valid.

* `OnPanel` — 16-bit coordinates on a panel; `StaysOn` — what a transition produces and
  remembers is on the panel.
* `PressesOn` — a press of the left button is on the panel once it is cut to 16 bits.
* `step_staysOn_iff` — from a valid position that is all there is to it, for every event of
  the mouse; `touch_on_panel_iff` — so it is for every sequence of them.
-/

namespace LuatosPc.Driver.Touch

/-- The position is on the panel. -/
def OnPanel (conf : Conf) (x y : UInt16) : Prop :=
  (x.toNat : Int) < conf.w ∧ (y.toNat : Int) < conf.h

instance (conf : Conf) (x y : UInt16) : Decidable (OnPanel conf x y) :=
  inferInstanceAs (Decidable (_ ∧ _))

/-- An event of the mouse, or one that the driver does not handle. -/
def SdlEvent.isMouse : SdlEvent → Bool
  | .mouseButtonDown .. | .mouseMotion .. | .mouseButtonUp .. | .other => true
  | .fingerDown .. | .fingerMotion .. | .fingerUp .. => false

/-- The transition handles no event but those of the mouse, and belongs to a driver in use. -/
structure MouseOnly (e : Trans) : Prop where
  use : e.act.inUse = true
  mouse : ∀ ev, watched e = some ev → ev.isMouse = true

/-- What the transition stores and what it remembers is on the panel. -/
structure StaysOn (conf : Conf) (e : Trans) : Prop where
  stored : ∀ ev ∈ produced e, OnPanel conf ev.xCoordinate ev.yCoordinate
  remembered : OnPanel conf e.dst.tp.lastValidX e.dst.tp.lastValidY

/-- If the transition handles a press of the left button, the position is on the panel once
it is cut to 16 bits. -/
def PressesOn (conf : Conf) (e : Trans) : Prop :=
  ∀ x y, watched e = some (.mouseButtonDown sdlButtonLeft x y) →
    OnPanel conf (toUInt16 x) (toUInt16 y)

/-! ## One event -/

/-- A position on the panel stays there when it is cut to 16 bits. -/
theorem onPanel_toUInt16 {conf : Conf} {x y : Int} (h : conf.onPanel x y = true) :
    OnPanel conf (toUInt16 x) (toUInt16 y) := by
  have hcut : ∀ z : Int, 0 ≤ z → ((toUInt16 z).toNat : Int) ≤ z := by
    intro z hz
    rw [toUInt16, UInt16.toNat_ofNat']
    omega
  obtain ⟨hx, hxw, hy, hyh⟩ := of_decide_eq_true h
  exact ⟨(hcut x hx).trans_lt hxw, (hcut y hy).trans_lt hyh⟩

section

variable {touchMax : Nat} {conf : Conf} {σ σ' : State} {a : Act} {o : Answer} {tr : List Trans}

/-- The first part of `tp_sdl_watch`, for an event of the mouse: from a valid position it
makes and leaves one, unless a press is off the panel. -/
theorem touchEvent_onPanel {s : TpPcState} (timestamp : UInt32) {e : SdlEvent}
    (hmouse : e.isMouse = true) (hlast : OnPanel conf s.lastValidX s.lastValidY) :
    ((∀ ev ∈ (touchEvent conf s timestamp e).1, OnPanel conf ev.xCoordinate ev.yCoordinate) ∧
      OnPanel conf (touchEvent conf s timestamp e).2.lastValidX
        (touchEvent conf s timestamp e).2.lastValidY) ↔
    ∀ x y, e = .mouseButtonDown sdlButtonLeft x y → OnPanel conf (toUInt16 x) (toUInt16 y) := by
  cases e with
  | mouseButtonDown button x y =>
    simp only [touchEvent]
    by_cases hleft : button = sdlButtonLeft
    · subst hleft
      simp [TpPcState.setLastValid]
    · simp [hleft, hlast]
  | mouseMotion state x y =>
    refine iff_of_true ?_ (by simp)
    simp only [touchEvent]
    split
    · split
      · rename_i hon
        simpa [TpPcState.setLastValid] using onPanel_toUInt16 hon
      · simpa using hlast
    · simpa using hlast
  | mouseButtonUp button x y =>
    refine iff_of_true ?_ (by simp)
    simp only [touchEvent]
    split
    · split
      · rename_i hon
        simpa using ⟨onPanel_toUInt16 hon, hlast⟩
      · simpa using hlast
    · simpa using hlast
  | other => simpa [touchEvent] using hlast
  | fingerDown x y => cases hmouse
  | fingerMotion x y => cases hmouse
  | fingerUp x y => cases hmouse

/-- To store an event leaves the last valid position. -/
theorem lastValid_enqueueEvent (s : TpPcState) (ev : TpData) :
    (s.enqueueEvent ev).1.lastValidX = s.lastValidX ∧
      (s.enqueueEvent ev).1.lastValidY = s.lastValidY := by
  unfold TpPcState.enqueueEvent
  split
  · dsimp only
    split <;> exact ⟨rfl, rfl⟩
  · exact ⟨rfl, rfl⟩

/-- What `tp_sdl_watch` remembers is what its first part makes of the position. -/
theorem lastValid_tpSdlWatch (conf : Conf) (s : TpPcState) (timestamp : UInt32) (e : SdlEvent) :
    (tpSdlWatch conf s timestamp e).1.lastValidX =
        (touchEvent conf s timestamp e).2.lastValidX ∧
      (tpSdlWatch conf s timestamp e).1.lastValidY =
        (touchEvent conf s timestamp e).2.lastValidY := by
  unfold tpSdlWatch
  split
  · rename_i s' htouch
    rw [htouch]
    exact ⟨rfl, rfl⟩
  · rename_i ev s' htouch
    rw [htouch]
    split
    · dsimp only
      split
      · exact lastValid_enqueueEvent s' ev
      · exact lastValid_enqueueEvent s' ev
    · exact ⟨rfl, rfl⟩

/-- A read leaves the last valid position. -/
theorem lastValid_findEvent (s : TpPcState) :
    s.findEvent.1.lastValidX = s.lastValidX ∧ s.findEvent.1.lastValidY = s.lastValidY := by
  have hslot : ∀ t : TpPcState, t.takeSlot.1.lastValidX = t.lastValidX ∧
      t.takeSlot.1.lastValidY = t.lastValidY := by
    intro t
    unfold TpPcState.takeSlot
    split <;> exact ⟨rfl, rfl⟩
  have hdeq : s.dequeueEvent.1.lastValidX = s.lastValidX ∧
      s.dequeueEvent.1.lastValidY = s.lastValidY := by
    unfold TpPcState.dequeueEvent
    split
    · split <;> exact ⟨rfl, rfl⟩
    · exact ⟨rfl, rfl⟩
  unfold TpPcState.findEvent
  split
  · split
    · rename_i t ev ht
      rw [ht] at hdeq
      exact hdeq
    · rename_i t ht
      rw [ht] at hdeq
      exact ⟨(hslot t).1.trans hdeq.1, (hslot t).2.trans hdeq.2⟩
  · exact hslot s

/-- The driver is in use, on a panel of the given size, and remembers a position on it. -/
structure Settled (conf : Conf) (σ : State) : Prop where
  ready : Ready σ.tp
  width : σ.conf.w = conf.w
  height : σ.conf.h = conf.h
  last : OnPanel conf σ.tp.lastValidX σ.tp.lastValidY

/-- Reading an event stores none, and does not change the remembered position. -/
theorem step_luatTpPcRead (hs : step touchMax σ .luatTpPcRead = some (σ', o)) :
    σ'.tp.lastValidX = σ.tp.lastValidX ∧ σ'.tp.lastValidY = σ.tp.lastValidY ∧
      produced ⟨σ, .luatTpPcRead, o, σ'⟩ = [] := by
  obtain ⟨hx, hy⟩ := lastValid_findEvent σ.tp
  simp only [step, Option.some.injEq, luatTpPcRead] at hs
  split at hs
  · rename_i s ev hfind
    rw [hfind] at hx hy
    cases hs
    exact ⟨hx, hy, rfl⟩
  · rename_i s hfind
    rw [hfind] at hx hy
    split at hs <;> cases hs <;> exact ⟨hx, hy, rfl⟩

/-- **One step** stays on the panel if and only if it is no press off the panel. -/
theorem step_staysOn_iff (h : Settled conf σ) (hs : step touchMax σ a = some (σ', o))
    (hmouse : MouseOnly ⟨σ, a, o, σ'⟩) :
    StaysOn conf ⟨σ, a, o, σ'⟩ ↔ PressesOn conf ⟨σ, a, o, σ'⟩ := by
  have hpanel : OnPanel σ.conf = OnPanel conf := by
    unfold OnPanel
    rw [h.width, h.height]
  cases a with
  | tpSdlWatch timestamp e =>
    simp only [step, Option.some.injEq, Prod.mk.injEq] at hs
    obtain ⟨rfl, rfl⟩ := hs
    have hlast : OnPanel σ.conf σ.tp.lastValidX σ.tp.lastValidY := hpanel ▸ h.last
    have htouch := touchEvent_onPanel timestamp (hmouse.mouse e rfl) hlast
    obtain ⟨hx, hy⟩ := lastValid_tpSdlWatch σ.conf σ.tp timestamp e
    rw [hpanel, ← hx, ← hy] at htouch
    constructor
    · intro hstays x y hpress
      refine htouch.1 ⟨?_, hstays.remembered⟩ x y (Option.some.inj hpress)
      intro ev hev
      refine hstays.stored ev ?_
      rw [produced, (watch_effect h.ready timestamp e).1, hev]
      exact List.mem_singleton_self ev
    · intro hpress
      obtain ⟨hstored, hlast⟩ := htouch.2 fun x y he => hpress x y (congrArg some he)
      refine ⟨?_, hlast⟩
      intro ev hev
      rw [produced, (watch_effect h.ready timestamp e).1] at hev
      cases hsome : (touchEvent σ.conf σ.tp timestamp e).1 with
      | none => simp [hsome] at hev
      | some ev' =>
        obtain rfl : ev = ev' := by simpa [hsome] using hev
        exact hstored ev hsome
  | luatTpPcRead =>
    obtain ⟨hx, hy, hnone⟩ := step_luatTpPcRead hs
    have hlast : OnPanel conf σ'.tp.lastValidX σ'.tp.lastValidY := by
      rw [hx, hy]
      exact h.last
    exact iff_of_true ⟨by simp [hnone], hlast⟩ (fun x y hpress => by cases hpress)
  | luatTpPcReadDone =>
    cases hs
    exact iff_of_true ⟨by simp [produced], h.last⟩ (fun x y hpress => by cases hpress)
  | luatTpPcInit => exact absurd hmouse.use Bool.false_ne_true
  | luatTpPcDeinit => exact absurd hmouse.use Bool.false_ne_true

/-- A step that stays on the panel leaves the driver settled. -/
theorem Settled.step (h : Settled conf σ) (hs : step touchMax σ a = some (σ', o))
    (huse : a.inUse = true) (hstays : StaysOn conf ⟨σ, a, o, σ'⟩) : Settled conf σ' := by
  obtain ⟨hw, hh⟩ := step_size hs
  exact ⟨(step_effect hs h.ready huse).1, hw.trans h.width, hh.trans h.height,
    hstays.remembered⟩

end

/-- **Touch events stay on the panel.**  After `luat_tp_pc_init`, for any events of the mouse
and any reads in between: every stored event and every remembered position is on the panel if
and only if every press of the left button is, once its position is cut to 16 bits. -/
theorem touch_on_panel_iff {touchMax : Nat} {conf : Conf} {tr : List Trans} {σ : State}
    (h : Run (machine touchMax conf) tr σ) (hw : 0 < conf.w) (hh : 0 < conf.h)
    {pre post : List Trans} {c : Trans} (he : tr = pre ++ c :: post)
    (hinit : c.act = .luatTpPcInit) (hmouse : ∀ e ∈ post, MouseOnly e) :
    (∀ e ∈ post, StaysOn conf e) ↔ ∀ e ∈ post, PressesOn conf e := by
  obtain ⟨hpre, hstep⟩ := h.split he
  have hsize : c.dst.conf.w = conf.w ∧ c.dst.conf.h = conf.h := by
    obtain ⟨hw₁, hh₁⟩ := run_size hpre
    obtain ⟨hw₂, hh₂⟩ := step_size hstep
    exact ⟨hw₂.trans hw₁, hh₂.trans hh₁⟩
  have hsettled : Settled conf c.dst := by
    refine ⟨?_, hsize.1, hsize.2, ?_⟩
    · rw [step_init hstep hinit]
      exact ready_init touchMax c.src.conf
    · rw [step_init hstep hinit]
      exact ⟨hw, hh⟩
  refine (h.path he).forall_iff hmouse hsettled ?_ ?_
  · intro σ a σ' o hσ hs hm
    exact step_staysOn_iff hσ hs hm
  · intro σ a σ' o hσ hs hm hstays
    exact hσ.step hs hm.use hstays

theorem mouseOnly_of_act {e : Trans} {timestamp : UInt32} {ev : SdlEvent}
    (h : e.act = .tpSdlWatch timestamp ev) (hmouse : ev.isMouse = true) : MouseOnly e := by
  refine ⟨by rw [h]; rfl, ?_⟩
  intro ev' hwatched
  rw [watched, h] at hwatched
  rwa [← Option.some.inj hwatched]

theorem pressesOn_of_act {conf : Conf} {e : Trans} {timestamp : UInt32} {ev : SdlEvent}
    (h : e.act = .tpSdlWatch timestamp ev)
    (hpress : ∀ x y, ev = .mouseButtonDown sdlButtonLeft x y →
      OnPanel conf (toUInt16 x) (toUInt16 y)) : PressesOn conf e := by
  intro x y hwatched
  rw [watched, h] at hwatched
  exact hpress x y (Option.some.inj hwatched)

/-- A press at the right border, a motion beyond it and the release. -/
def borderOps : List Act :=
  [.luatTpPcInit, .tpSdlWatch 1 (.mouseButtonDown sdlButtonLeft 319 10),
    .tpSdlWatch 2 (.mouseMotion 1 400 10), .tpSdlWatch 3 (.mouseButtonUp sdlButtonLeft 400 10)]

theorem touch_on_panel_border :
    (((machine 10 panel).traceOf borderOps).drop 1).flatMap produced =
        [⟨.down, 0, 319, 10, 1, 1⟩, ⟨.up, 0, 319, 10, 1, 2⟩, ⟨.up, 0, 319, 10, 1, 3⟩] ∧
      ∀ e ∈ ((machine 10 panel).traceOf borderOps).drop 1, StaysOn panel e := by
  have h0 : 0 < ((machine 10 panel).traceOf borderOps).length := by decide
  have hacts : ∀ e ∈ ((machine 10 panel).traceOf borderOps).drop 1,
      MouseOnly e ∧ PressesOn panel e := by
    intro e he
    have hact := Machine.act_mem_of_mem_drop he
    simp only [borderOps, List.drop_succ_cons, List.drop_zero, List.mem_cons, List.not_mem_nil,
      or_false] at hact
    obtain h | h | h := hact
    · exact ⟨mouseOnly_of_act h rfl, pressesOn_of_act h (by rintro x y hxy; cases hxy; decide)⟩
    · exact ⟨mouseOnly_of_act h rfl, pressesOn_of_act h (by rintro x y hxy; cases hxy)⟩
    · exact ⟨mouseOnly_of_act h rfl, pressesOn_of_act h (by rintro x y hxy; cases hxy)⟩
  exact ⟨by decide, (touch_on_panel_iff (Machine.run_exec (by decide)) (by decide) (by decide)
    (Machine.traceOf_split h0) rfl fun e he => (hacts e he).1).2 fun e he => (hacts e he).2⟩

/-- A press left of the panel is stored at 65535, and the motion beyond the border gets the
same position. -/
def outsideOps : List Act :=
  [.luatTpPcInit, .tpSdlWatch 1 (.mouseButtonDown sdlButtonLeft (-1) 10),
    .tpSdlWatch 2 (.mouseMotion 1 (-5) 10)]

theorem touch_leaves_panel :
    Run (machine 10 panel) ((machine 10 panel).traceOf outsideOps)
      ((machine 10 panel).stateOf outsideOps) ∧
    ((machine 10 panel).traceOf outsideOps).flatMap produced =
      [⟨.down, 0, 65535, 10, 1, 1⟩, ⟨.up, 0, 65535, 10, 1, 2⟩] ∧
    ((machine 10 panel).stateOf outsideOps).tp.lastValidX = 65535 ∧
    ¬ OnPanel panel 65535 10 :=
  ⟨Machine.run_exec (by decide), by decide, by decide, by decide⟩

end LuatosPc.Driver.Touch
