import LuatosPc.Driver.Touch

/-!
# The stream of touch events

A press of the left button should become one `DOWN`, any number of `MOVE` and one `UP`.
`tp_sdl_watch` keeps no record of whether a press is open: it turns every motion beyond the
border of the panel into an `UP`, and the release into another one.

* `WellFormed` — the streams of the form (DOWN MOVE* UP)*; `scan` — the automaton that
  recognises them.
* `Motion`, `Press` — what the user does with the left button; `Press.events` — what SDL
  makes of it; `kinds` — which touch events come of it.
* `path_kinds` — the kinds of the events that a driver in use has produced.
* `touch_stream_wellFormed_iff` — the stream of any number of presses is well formed if and
  only if the pointer never leaves the panel with the button held.
-/

namespace LuatosPc.Driver.Touch

/-- The streams of the form (DOWN MOVE* UP)*, with the number of moves of each press. -/
def WellFormed (l : List TpEvent) : Prop :=
  ∃ moves : List Nat, l = moves.flatMap fun n => .down :: (List.replicate n .move ++ [.up])

/-! ## The automaton -/

/-- Is a press open after the event, if the event may come at all? -/
def advance : Bool → TpEvent → Option Bool
  | false, .down => some true
  | true, .move => some true
  | true, .up => some false
  | _, _ => none

/-- Read a stream. -/
def scan (pressed : Bool) : List TpEvent → Option Bool
  | [] => some pressed
  | k :: l => (advance pressed k).bind fun pressed => scan pressed l

theorem scan_moves (n : Nat) (l : List TpEvent) :
    scan true (List.replicate n .move ++ .up :: l) = scan false l := by
  induction n with
  | zero => rfl
  | succ n ih =>
    rw [List.replicate_succ, List.cons_append]
    exact ih

theorem WellFormed.scan {l : List TpEvent} (h : WellFormed l) : scan false l = some false := by
  obtain ⟨moves, rfl⟩ := h
  induction moves with
  | nil => rfl
  | cons n moves ih =>
    rw [List.flatMap_cons, List.cons_append, List.append_assoc, List.singleton_append]
    show Touch.scan true (List.replicate n .move ++ .up :: _) = some false
    rw [scan_moves]
    exact ih

/-! ## Presses -/

/-- A motion with the left button held. -/
structure Motion where
  state : UInt32
  x : Int
  y : Int
  held : state &&& sdlButtonLmask ≠ 0

/-- The left button is pressed, the pointer moves, and the button is released. -/
structure Press where
  x : Int
  y : Int
  motions : List Motion
  upX : Int
  upY : Int

/-- The events of SDL. -/
def Press.events (p : Press) : List SdlEvent :=
  .mouseButtonDown sdlButtonLeft p.x p.y ::
    (p.motions.map (fun m => .mouseMotion m.state m.x m.y) ++
      [.mouseButtonUp sdlButtonLeft p.upX p.upY])

/-- The kind of touch event that an event of SDL becomes, if any. -/
def kinds (conf : Conf) : SdlEvent → List TpEvent
  | .mouseButtonDown button _ _ => if button = sdlButtonLeft then [.down] else []
  | .mouseMotion state x y =>
    if state &&& sdlButtonLmask ≠ 0 then if conf.onPanel x y then [.move] else [.up] else []
  | .mouseButtonUp button _ _ => if button = sdlButtonLeft then [.up] else []
  | .fingerDown .. => [.down]
  | .fingerMotion .. => [.move]
  | .fingerUp .. => [.up]
  | .other => []

theorem touchEvent_kinds (conf : Conf) (s : TpPcState) (timestamp : UInt32) (e : SdlEvent) :
    (touchEvent conf s timestamp e).1.toList.map TpData.event = kinds conf e := by
  cases e with
  | mouseButtonDown button x y =>
    simp only [touchEvent, kinds]
    split <;> rfl
  | mouseMotion state x y =>
    simp only [touchEvent, kinds]
    split
    · split <;> rfl
    · rfl
  | mouseButtonUp button x y =>
    simp only [touchEvent, kinds]
    split
    · split <;> rfl
    · rfl
  | _ => rfl

/-- What the motions of a press become. -/
def Motion.kind (conf : Conf) (m : Motion) : TpEvent :=
  if conf.onPanel m.x m.y then .move else .up

theorem Press.kinds_events (conf : Conf) (p : Press) :
    p.events.flatMap (kinds conf) = .down :: (p.motions.map (Motion.kind conf) ++ [.up]) := by
  have hmotion : ∀ m : Motion, kinds conf (.mouseMotion m.state m.x m.y) = [m.kind conf] := by
    intro m
    simp only [kinds, if_pos m.held, Motion.kind]
    split <;> rfl
  have hmotions : (p.motions.map fun m => .mouseMotion m.state m.x m.y).flatMap (kinds conf) =
      p.motions.map (Motion.kind conf) := by
    rw [List.flatMap_map, List.map_eq_flatMap]
    exact List.flatMap_congr fun m _ => hmotion m
  rw [Press.events, List.flatMap_cons, List.flatMap_append, hmotions]
  rfl

/-- With a press already closed, neither a motion nor a release may come. -/
theorem scan_false_motions (conf : Conf) (ms : List Motion) (l : List TpEvent) :
    scan false (ms.map (Motion.kind conf) ++ .up :: l) = none := by
  cases ms with
  | nil => rfl
  | cons m ms =>
    rw [List.map_cons, List.cons_append, Motion.kind]
    split <;> rfl

/-- The automaton gets through a press if and only if the pointer stays on the panel. -/
theorem scan_true_motions (conf : Conf) (ms : List Motion) (l : List TpEvent) :
    scan true (ms.map (Motion.kind conf) ++ .up :: l) =
      if ∀ m ∈ ms, conf.onPanel m.x m.y = true then scan false l else none := by
  induction ms with
  | nil => simp [scan, advance]
  | cons m ms ih =>
    rw [List.map_cons, List.cons_append]
    by_cases hon : conf.onPanel m.x m.y = true
    · have hkind : m.kind conf = .move := if_pos hon
      rw [hkind]
      simp only [List.forall_mem_cons, hon, true_and]
      exact ih
    · have hkind : m.kind conf = .up := if_neg hon
      rw [hkind, if_neg fun hall => hon (hall m (List.mem_cons_self))]
      exact scan_false_motions conf ms l

theorem scan_presses (conf : Conf) (ps : List Press) :
    scan false (ps.flatMap fun p => p.events.flatMap (kinds conf)) = some false ↔
      ∀ p ∈ ps, ∀ m ∈ p.motions, conf.onPanel m.x m.y = true := by
  induction ps with
  | nil => simp [scan]
  | cons p ps ih =>
    rw [List.flatMap_cons, p.kinds_events, List.cons_append, List.append_assoc,
      List.singleton_append]
    show scan true (p.motions.map (Motion.kind conf) ++ .up :: _) = _ ↔ _
    rw [scan_true_motions]
    by_cases hp : ∀ m ∈ p.motions, conf.onPanel m.x m.y = true
    · rw [if_pos hp, ih, List.forall_mem_cons, and_iff_right hp]
    · rw [if_neg hp]
      exact iff_of_false (by simp) fun hall => hp (hall p List.mem_cons_self)

/-- If the pointer stays on the panel, the stream is well formed. -/
theorem wellFormed_presses {conf : Conf} {ps : List Press}
    (h : ∀ p ∈ ps, ∀ m ∈ p.motions, conf.onPanel m.x m.y = true) :
    WellFormed (ps.flatMap fun p => p.events.flatMap (kinds conf)) := by
  refine ⟨ps.map fun p => p.motions.length, ?_⟩
  rw [List.flatMap_map]
  refine List.flatMap_congr ?_
  intro p hp
  have hmoves : p.motions.map (Motion.kind conf) = List.replicate p.motions.length .move := by
    rw [← List.map_const']
    exact List.map_congr_left fun m hm => if_pos (h p hp m hm)
  rw [p.kinds_events, hmoves]

/-! ## Runs -/

/-- The event of SDL that a transition handles. -/
def watched (e : Trans) : Option SdlEvent :=
  match e.act with
  | .tpSdlWatch _ e => some e
  | _ => none

section

variable {touchMax : Nat} {conf : Conf} {σ σ' : State} {a : Act} {o : Answer} {tr : List Trans}

/-- No step changes the size of the panel. -/
theorem step_size (h : step touchMax σ a = some (σ', o)) :
    σ'.conf.w = σ.conf.w ∧ σ'.conf.h = σ.conf.h := by
  cases a with
  | luatTpPcRead =>
    simp only [step, Option.some.injEq, luatTpPcRead] at h
    split at h
    · cases h
      exact ⟨rfl, rfl⟩
    · split at h <;> (cases h; exact ⟨rfl, rfl⟩)
  | luatTpPcDeinit =>
    simp only [step, Option.some.injEq, luatTpPcDeinit, Prod.mk.injEq] at h
    obtain ⟨rfl, -⟩ := h
    split <;> exact ⟨rfl, rfl⟩
  | _ =>
    cases h
    exact ⟨rfl, rfl⟩

theorem run_size (h : Run (machine touchMax conf) tr σ) :
    σ.conf.w = conf.w ∧ σ.conf.h = conf.h := by
  refine h.invariant (I := fun σ => σ.conf.w = conf.w ∧ σ.conf.h = conf.h) ⟨rfl, rfl⟩ ?_
  rintro σ a σ' o ⟨hw, hh⟩ hs
  obtain ⟨hw', hh'⟩ := step_size hs
  exact ⟨hw'.trans hw, hh'.trans hh⟩

theorem step_onPanel (h : step touchMax σ a = some (σ', o)) :
    σ'.conf.onPanel = σ.conf.onPanel := by
  obtain ⟨hw, hh⟩ := step_size h
  unfold Conf.onPanel
  rw [hw, hh]

theorem onPanel_of_run (h : Run (machine touchMax conf) tr σ) :
    σ.conf.onPanel = conf.onPanel := by
  obtain ⟨hw, hh⟩ := run_size h
  unfold Conf.onPanel
  rw [hw, hh]

theorem kinds_congr {conf' : Conf} (h : conf'.onPanel = conf.onPanel) (e : SdlEvent) :
    kinds conf' e = kinds conf e := by
  cases e with
  | mouseMotion state x y => simp only [kinds, h]
  | _ => rfl

/-- **One step** produces the touch event for the event that it handles. -/
theorem step_kinds (h : step touchMax σ a = some (σ', o)) (hready : Ready σ.tp) :
    (produced ⟨σ, a, o, σ'⟩).map TpData.event =
      (watched ⟨σ, a, o, σ'⟩).toList.flatMap (kinds σ.conf) := by
  cases a with
  | tpSdlWatch timestamp e =>
    simp only [step, Option.some.injEq, Prod.mk.injEq] at h
    obtain ⟨-, rfl⟩ := h
    show List.map TpData.event _ = [e].flatMap (kinds σ.conf)
    rw [List.flatMap_singleton, ← touchEvent_kinds σ.conf σ.tp timestamp e, produced,
      (watch_effect hready timestamp e).1]
    cases (touchEvent σ.conf σ.tp timestamp e).1 <;> rfl
  | luatTpPcRead =>
    simp only [step, Option.some.injEq, luatTpPcRead] at h
    split at h
    · cases h
      rfl
    · split at h <;> (cases h; rfl)
  | _ =>
    cases h
    rfl

/-- **The kinds of the events** that a driver in use has produced. -/
theorem path_kinds {σ₀ : State} (h : Path (machine touchMax conf) σ₀ tr σ) (hready : Ready σ₀.tp)
    (hpanel : σ₀.conf.onPanel = conf.onPanel) (huse : ∀ e ∈ tr, e.act.inUse = true) :
    (tr.flatMap produced).map TpData.event = (tr.filterMap watched).flatMap (kinds conf) := by
  refine (h.history_invariant (C := fun e => e.act.inUse = true)
    (I := fun tr σ => Ready σ.tp ∧ σ.conf.onPanel = conf.onPanel ∧
      (tr.flatMap produced).map TpData.event = (tr.filterMap watched).flatMap (kinds conf))
    huse ⟨hready, hpanel, rfl⟩ ?_).2.2
  rintro tr σ a σ' o ⟨hready, hpanel, hlaw⟩ hs huse
  refine ⟨(step_effect hs hready huse).1, (step_onPanel hs).trans hpanel, ?_⟩
  rw [List.flatMap_append, List.map_append, List.filterMap_append, List.flatMap_append, hlaw,
    List.flatMap_singleton, step_kinds hs hready]
  congr 1
  rw [List.flatMap_congr fun e _ => kinds_congr hpanel e]
  cases hw : watched ⟨σ, a, o, σ'⟩ <;> simp [hw]

end

/-- **The stream of touch events.**  Let the left button be pressed, moved and released any
number of times, with any reads in between.  The events that `tp_sdl_watch` stores are of
the form (DOWN MOVE* UP)* if and only if no motion with the button held is off the panel. -/
theorem touch_stream_wellFormed_iff {touchMax : Nat} {conf : Conf} {tr : List Trans} {σ : State}
    (h : Run (machine touchMax conf) tr σ) {pre post : List Trans} {c : Trans}
    (he : tr = pre ++ c :: post) (hinit : c.act = .luatTpPcInit)
    (huse : ∀ e ∈ post, e.act.inUse = true) (ps : List Press)
    (hpress : post.filterMap watched = ps.flatMap Press.events) :
    WellFormed ((post.flatMap produced).map TpData.event) ↔
      ∀ p ∈ ps, ∀ m ∈ p.motions, conf.onPanel m.x m.y = true := by
  obtain ⟨hpre, hstep⟩ := h.split he
  have hpanel : c.dst.conf.onPanel = conf.onPanel :=
    (step_onPanel hstep).trans (onPanel_of_run hpre)
  have hready : Ready c.dst.tp := by
    rw [step_init hstep hinit]
    exact ready_init touchMax c.src.conf
  rw [path_kinds (h.path he) hready hpanel huse, hpress, List.flatMap_assoc]
  constructor
  · intro hwell
    exact (scan_presses conf ps).1 hwell.scan
  · exact wellFormed_presses

/-- A press with one motion on the panel. -/
def dragOn : Press := ⟨10, 20, [⟨1, 30, 20, by decide⟩], 30, 20⟩

/-- A press with one motion beyond the right border. -/
def dragOff : Press := ⟨10, 20, [⟨1, 400, 20, by decide⟩], 30, 20⟩

/-- Init, and the events of a press. -/
def dragOps (p : Press) : List Act := .luatTpPcInit :: p.events.map (.tpSdlWatch 1)

theorem touch_stream_wellFormed_on :
    ((((machine 10 panel).traceOf (dragOps dragOn)).drop 1).flatMap produced).map TpData.event =
        [.down, .move, .up] ∧
      WellFormed (((((machine 10 panel).traceOf (dragOps dragOn)).drop 1).flatMap produced).map
        TpData.event) := by
  have h0 : 0 < ((machine 10 panel).traceOf (dragOps dragOn)).length := by decide
  have huse : ∀ a ∈ (dragOps dragOn).drop 1, a.inUse = true := by decide
  refine ⟨by decide, (touch_stream_wellFormed_iff (Machine.run_exec (by decide))
    (Machine.traceOf_split h0) rfl ?_ [dragOn] ?_).2 ?_⟩
  · intro e he
    exact huse _ (Machine.act_mem_of_mem_drop he)
  · decide
  · decide

/-- The motion beyond the border ends the press, and the release ends it again. -/
theorem touch_stream_two_ups :
    Run (machine 10 panel) ((machine 10 panel).traceOf (dragOps dragOff))
      ((machine 10 panel).stateOf (dragOps dragOff)) ∧
    (((machine 10 panel).traceOf (dragOps dragOff)).flatMap produced).map TpData.event =
      [.down, .up, .up] ∧
    ¬ WellFormed [.down, .up, .up] := by
  refine ⟨Machine.run_exec (by decide), by decide, ?_⟩
  intro hwell
  exact absurd hwell.scan (by decide)

end LuatosPc.Driver.Touch
