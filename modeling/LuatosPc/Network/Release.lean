import LuatosPc.Network.Tags

/-!
# Giving a slot back

`libuv_socket_force_close` is the call after which an owner forgets a socket, so
its slot should be free again once libuv has run what it owes.  The code gets
there only on part of the ways.  A forced close whose request libuv *accepts*
clears the tag at once; when the callback comes, it finds no tag, believes the
slot to be closed already and leaves its state as it was, so the free test of
`libuv_create_socket` never passes again.  A forced close of a slot that is
already `SC_CLOSED` returns before it clears the tag.  And a late connect or a
late read error moves a slot that nobody owns out of its free state.

* `SlotView.ReleaseOk` — none of these happens.
* `SlotView.forced_free` — then a slot that was closed by force is free as soon
  as no callback is owed to it, over every run of the slot machine.
* `force_close_frees_slot` — the same for the adapter, and
  `force_close_leaks_slot` — the first of the ways on which the slot is lost.
-/

namespace LuatosPc
namespace Libuv

open Adapter

/-! ## On the slot machine -/

namespace SlotView

/-- An action that does not lose the slot: no tag 0 is handed out; a forced close
finds the slot released, or libuv refuses the request, or a `udp_async_close`
that will clear the tag is still to come; no connect succeeds, and no read fails,
on a slot without an owner. -/
def ReleaseOk (v : SlotView) : SlotAct → Prop
  | .create _ t => t ≠ 0
  | .forceClose accepted =>
    v.tag = 0 ∨ (v.state ≠ .closed ∧ accepted = false) ∨ (v.state = .closed ∧ 0 < v.closes)
  | .connected => v.tag ≠ 0
  | .eof | .readError => v.tag ≠ 0 ∨ v.state = .closed
  | _ => True

/-- A slot without an owner is free. -/
def Sound (v : SlotView) : Prop := v.tag = 0 → v.state = .idle ∨ v.state = .closed

theorem step_sound {v v' : SlotView} {a : SlotAct} (hv : v.Sound) (hok : v.ReleaseOk a)
    (h : v.step a = some v') : v'.Sound := by
  cases a with
  | other => cases h; exact hv
  | create isTcp t =>
    obtain ⟨-, h⟩ := Option.ite_none_right_eq_some.1 h
    cases h
    exact fun hc => absurd hc hok
  | connect t =>
    obtain ⟨hn, h⟩ := Option.ite_none_left_eq_some.1 h
    cases h
    exact fun hc => absurd (Or.inl (Or.inl hc)) hn
  | close t accepted =>
    cases h
    split
    · exact hv
    · rename_i hn
      intro hc
      rw [requestClose_tag] at hc
      exact absurd (Or.inl (Or.inl hc)) hn
  | forceClose accepted =>
    cases h
    split
    · exact hv
    · rename_i hn
      rcases hok with h0 | ⟨-, rfl⟩ | ⟨hcl, -⟩
      · exact absurd (Or.inl h0) hn
      · exact fun _ => Or.inr rfl
      · exact absurd (Or.inr hcl) hn
  | clean =>
    cases h
    unfold cleaned
    split
    · exact fun _ => Or.inl rfl
    · exact hv
  | connected =>
    obtain ⟨-, h⟩ := Option.ite_none_left_eq_some.1 h
    cases h
    exact fun hc => absurd hc hok
  | connectFailed =>
    obtain ⟨-, h⟩ := Option.ite_none_left_eq_some.1 h
    cases h
    exact fun _ => Or.inr rfl
  | shutdown =>
    obtain ⟨-, h⟩ := Option.ite_none_left_eq_some.1 h
    cases h
    unfold shut
    split
    · exact hv
    · exact fun _ => Or.inr rfl
  | asyncClose =>
    obtain ⟨-, h⟩ := Option.ite_none_left_eq_some.1 h
    cases h
    unfold closeDone
    split
    · rename_i hr
      intro _
      rcases hr with h0 | hcl
      · exact hv h0
      · exact Or.inr hcl
    · exact fun _ => Or.inr rfl
  | eof =>
    cases h
    unfold remoteClosed
    split
    · exact hv
    · rename_i hn
      rcases hok with h0 | hcl
      · exact fun hc => absurd hc h0
      · exact absurd (Or.inl hcl) hn
  | readError =>
    cases h
    unfold readFailed
    split
    · exact hv
    · rename_i hn
      rcases hok with h0 | hcl
      · exact fun hc => absurd hc h0
      · exact absurd hcl hn

/-- The tag of the slot is gone, or `udp_async_close` will take it. -/
def Doomed (v : SlotView) : Prop := v.tag = 0 ∨ 0 < v.closes

theorem step_doomed {v v' : SlotView} {a : SlotAct} (hv : v.Doomed)
    (hno : ∀ isTcp t, a ≠ .create isTcp t) (h : v.step a = some v') : v'.Doomed := by
  have hframe := step_frame h
  rcases hv with h0 | hpos
  · rcases hframe.tag with ⟨isTcp, ha⟩ | htag | htag
    · exact absurd ha (hno _ _)
    · exact Or.inl (htag.trans h0)
    · exact Or.inl htag
  · rcases hframe.asyncClose with htag | hle
    · exact Or.inl htag
    · exact Or.inr (lt_of_lt_of_le hpos hle)

theorem doomed_of_forceClose {v v' : SlotView} {accepted : Bool}
    (hok : v.ReleaseOk (.forceClose accepted)) (h : v.step (.forceClose accepted) = some v') :
    v'.Doomed := by
  cases h
  split
  · rcases hok with h0 | ⟨hst, -⟩ | ⟨-, hpos⟩
    · exact Or.inl h0
    · rename_i hr
      exact Or.inl (hr.resolve_right hst)
    · exact Or.inr hpos
  · exact Or.inl rfl

/-- The slot was closed by force after it was last handed out. -/
def Forced (tr : List (Transition SlotView SlotAct Unit)) : Prop :=
  ∃ pre e post, tr = pre ++ e :: post ∧ (∃ accepted, e.act = .forceClose accepted) ∧
    ∀ e' ∈ post, ∀ isTcp t, e'.act ≠ .create isTcp t

theorem Forced.of_snoc {tr : List (Transition SlotView SlotAct Unit)}
    {e : Transition SlotView SlotAct Unit} (h : Forced (tr ++ [e])) :
    (∃ accepted, e.act = .forceClose accepted) ∨
      (Forced tr ∧ ∀ isTcp t, e.act ≠ .create isTcp t) := by
  obtain ⟨pre, f, post, heq, hf, hpost⟩ := h
  rcases List.eq_nil_or_concat post with rfl | ⟨post', l, rfl⟩
  · obtain ⟨-, rfl⟩ : tr = pre ∧ e = f := by simpa using List.append_inj' heq rfl
    exact Or.inl hf
  · have heq' : tr ++ [e] = (pre ++ f :: post') ++ [l] := by simp [heq]
    obtain ⟨rfl, hl⟩ := List.append_inj' heq' rfl
    obtain rfl : e = l := by simpa using hl
    exact Or.inr ⟨⟨pre, f, post', rfl, hf, fun e' he' => hpost e' (by simp [he'])⟩,
      hpost e (by simp)⟩

/-- **A slot closed by force is free** as soon as libuv owes it nothing, over
every run that does not lose it. -/
theorem forced_free {tr : List (Transition SlotView SlotAct Unit)} {v : SlotView}
    (h : Run SlotView.machine tr v) (hok : ∀ e ∈ tr, e.src.ReleaseOk e.act) (hf : Forced tr)
    (hq : v.closes = 0) : v.Free := by
  -- what a run keeps: a slot without an owner is free, a slot closed by force is
  -- without an owner or about to be
  have hinv : v.Sound ∧ (Forced tr → v.Doomed) := by
    refine h.history_invariant (I := fun tr v => v.Sound ∧ (Forced tr → v.Doomed))
      (C := fun _ e => e.src.ReleaseOk e.act) ?_ ?_ ?_
    · intro pre e post he
      exact hok e (by simp [he])
    · exact ⟨fun _ => Or.inl rfl, fun _ => Or.inl rfl⟩
    · intro tr v a v' o _ ⟨hsound, hdoom⟩ hstep hc
      have hs := machine_step.1 hstep
      refine ⟨step_sound hsound hc hs, fun hforced => ?_⟩
      rcases hforced.of_snoc with ⟨accepted, hact⟩ | ⟨hbefore, hno⟩
      · have ha : a = .forceClose accepted := hact
        subst ha
        exact doomed_of_forceClose hc hs
      · exact step_doomed (hdoom hbefore) hno hs
  have htag : v.tag = 0 := by
    rcases hinv.2 hf with h0 | hpos
    · exact h0
    · omega
  exact ⟨htag, hinv.1 htag⟩

end SlotView

/-! ## On the adapter -/

variable {β : Type}

/-- The transition loses no slot. -/
def ReleaseOk (e : Trans β) : Prop :=
  match e.act with
  | .create .. => e.src.socketTagCounter ≠ 0
  | .forceClose id ret => ∀ s, slotOf id = some s →
      (e.src.sockets s).tag = 0 ∨ ((e.src.sockets s).state ≠ .closed ∧ ret ≠ 0) ∨
        ((e.src.sockets s).state = .closed ∧ .udpAsyncClose s ∈ e.src.pending)
  | .onConnect s status _ _ => status = 0 → (e.src.sockets s).tag ≠ 0
  | .udpConnectAsync s _ _ => (e.src.sockets s).tag ≠ 0
  | .onRecv s .eof _ _ | .onRecv s .error _ _ =>
      (e.src.sockets s).tag ≠ 0 ∨ (e.src.sockets s).state = .closed
  | _ => True

/-- The owner of slot `s` has called `libuv_socket_force_close` on it since it was
last handed out. -/
def ForcedSince (s : Slot) (tr : List (Trans β)) : Prop :=
  ∃ pre e post id ret, tr = pre ++ e :: post ∧ e.act = .forceClose id ret ∧ slotOf id = some s ∧
    ∀ e' ∈ post, ∀ t, ¬ HandsOut e' s t

/-- What the condition says about one slot. -/
theorem ReleaseOk.slot {e : Trans β} (h : step e.src e.act = some (e.dst, e.out))
    (hok : ReleaseOk e) (s : Slot) : (e.src.view s).ReleaseOk (slotAct s e) := by
  unfold ReleaseOk at hok
  fun_cases slotAct s e
  all_goals try exact trivial
  · -- the tag handed out is the counter
    rename_i hact t hout
    obtain ⟨-, -, rfl⟩ := handsOut_step h hout
    rw [hact] at hok
    exact hok
  · rename_i hact hid
    rw [hact] at hok
    rcases hok s hid with h0 | ⟨hst, hret⟩ | ⟨hst, hmem⟩
    · exact Or.inl h0
    · exact Or.inr (Or.inl ⟨hst, by simp [hret]⟩)
    · exact Or.inr (Or.inr ⟨hst, List.count_pos_iff.2 hmem⟩)
  · rename_i hact
    rw [hact] at hok
    exact hok rfl
  all_goals
    rename_i hact
    rw [hact] at hok
    exact hok

theorem ForcedSince.slot {tr : List (Trans β)} {s : Slot} (h : ForcedSince s tr) :
    SlotView.Forced (tr.map (Transition.view (fun σ => σ.view s) (slotAct s))) := by
  obtain ⟨pre, e, post, id, ret, rfl, hact, hid, hpost⟩ := h
  refine ⟨pre.map _, _, post.map _, by rw [List.map_append, List.map_cons], ?_, ?_⟩
  · exact ⟨decide (ret = 0), by simp [Transition.view, slotAct, hact, hid]⟩
  · intro e' he' isTcp t hc
    obtain ⟨f, hf, rfl⟩ := List.mem_map.1 he'
    exact hpost f hf t (slotAct_eq_create hc).2

/-- **Force close gives the slot back.**  In every run whose transitions all meet
`ReleaseOk`, a slot that its owner closed by force after its last create passes
the free test whenever no callback is owed to it. -/
theorem force_close_frees_slot {tr : List (Trans β)} {σ : Adapter β} (h : Run (machine β) tr σ)
    (hok : ∀ e ∈ tr, ReleaseOk e) {s : Slot} (hf : ForcedSince s tr) (hq : Quiet s σ) :
    (σ.sockets s).isFree = true := by
  rw [isFree_iff]
  refine SlotView.forced_free ((simulates β s).run h) ?_ hf.slot hq.view.2.2
  intro e' he'
  obtain ⟨e, he, rfl⟩ := List.mem_map.1 he'
  exact (hok e he).slot (h.step_of_mem he) s

/-- A TCP socket that never connected: libuv refuses to shut it down. -/
def refusedOps : List (Op UInt8) := [.create true 0 false, .forceClose 0 (-107)]

theorem force_close_frees_slot_refused :
    (((machine UInt8).stateOf refusedOps).sockets 0).isFree = true := by
  have hexec : ((machine UInt8).exec (machine UInt8).init refusedOps).isSome = true := by decide
  have hrun := Machine.run_exec hexec
  have hok : (machine UInt8).Along (fun _ e => ReleaseOk e) [] (machine UInt8).init refusedOps := by
    refine ⟨show (0xFAFB : UInt64) ≠ 0 by decide, ?_, trivial⟩
    intro s hs
    cases hs
    exact Or.inr (Or.inl ⟨by decide, by decide⟩)
  refine force_close_frees_slot hrun (Machine.forall_mem_traceOf hok) ?_ ?_
  · exact ⟨((machine UInt8).traceOf refusedOps).take 1, ((machine UInt8).traceOf refusedOps)[1], [],
      0, -107, rfl, rfl, rfl, by simp⟩
  · refine ⟨?_, ?_, ?_, ?_⟩ <;> exact List.not_mem_nil

/-- A UDP socket is created and closed by force, libuv accepts the request, and
its callback runs. -/
def acceptedOps : List (Op UInt8) :=
  [.create false 0 false, .forceClose 0 0, .udpAsyncClose 0 true]

/-- The slot is lost: nothing is pending, nobody holds it, and it is not free. -/
theorem force_close_leaks_slot :
    Run (machine UInt8) ((machine UInt8).traceOf acceptedOps) ((machine UInt8).stateOf acceptedOps) ∧
      ForcedSince 0 ((machine UInt8).traceOf acceptedOps) ∧
      ((machine UInt8).stateOf acceptedOps).pending = [] ∧
      (((machine UInt8).stateOf acceptedOps).sockets 0).tag = 0 ∧
      (((machine UInt8).stateOf acceptedOps).sockets 0).state = .used ∧
      (((machine UInt8).stateOf acceptedOps).sockets 0).udp.reading = false ∧
      (((machine UInt8).stateOf acceptedOps).sockets 0).tcp.reading = false ∧
      (((machine UInt8).stateOf acceptedOps).sockets 0).isFree = false := by
  refine ⟨Machine.run_exec (by decide), ?_, rfl, rfl, rfl, rfl, rfl, rfl⟩
  refine ⟨((machine UInt8).traceOf acceptedOps).take 1, ((machine UInt8).traceOf acceptedOps)[1],
    [((machine UInt8).traceOf acceptedOps)[2]], 0, 0, rfl, rfl, rfl, ?_⟩
  intro e he t hc
  rw [List.mem_singleton.1 he] at hc
  cases hc

end Libuv
end LuatosPc
