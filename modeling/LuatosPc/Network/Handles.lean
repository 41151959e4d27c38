import LuatosPc.Network.Tags

/-!
# The life of the embedded handles

A libuv handle that was initialised must be closed, and its close callback must
have run, before its memory may be initialised again.  The adapter never calls
`uv_close` on the handles embedded in a slot: whichever way a slot becomes free,
its handle is still active.  So the protocol is kept exactly as long as no slot
is handed out a second time for the same protocol.

* `InitOk` — a create initialises a handle that libuv allows to be initialised.
* `handle_life_run` — a handle is active from the first create that used it.
* `init_allowed_iff` — hence the protocol is kept in a run if and only if no slot
  is reused; `handle_initialised_twice` — a run of ten calls that breaks it.
-/

namespace LuatosPc
namespace Libuv

open Adapter

variable {β : Type}

/-- The handle a slot uses for a protocol. -/
def UvConn.handle (c : UvConn β) (isTcp : Bool) : UvHandle := if isTcp then c.tcp else c.udp

/-- `uv_tcp_init` or `uv_udp_init` is applied only to a handle that was never
initialised or that is closed, with its close callback run. -/
def InitOk (e : Trans β) : Prop :=
  match e.act with
  | .create isTcp _ _ => ∀ s, e.src.findFree = some s →
      ((e.src.sockets s).handle isTcp).life = .uninit ∨
        ((e.src.sockets s).handle isTcp).life = .closed
  | _ => True

/-- The transition gives slot `s` to a socket of the given protocol. -/
def GivenTo (e : Trans β) (s : Slot) (isTcp : Bool) : Prop :=
  ∃ param isIpv6 t, e.act = .create isTcp param isIpv6 ∧ HandsOut e s t

theorem allocate_handle_self (c : UvConn β) (isTcp : Bool) (stag : UInt64) (param : Nat)
    (isIpv6 : Bool) : ((c.allocate isTcp stag param isIpv6).handle isTcp).life = .active := by
  cases isTcp <;> rfl

theorem allocate_handle_of_ne (c : UvConn β) {isTcp isTcp' : Bool} (h : isTcp' ≠ isTcp)
    (stag : UInt64) (param : Nat) (isIpv6 : Bool) :
    (c.allocate isTcp stag param isIpv6).handle isTcp' = c.handle isTcp' := by
  cases isTcp <;> cases isTcp'
  · exact absurd rfl h
  · rfl
  · rfl
  · exact absurd rfl h

/-- A handle's life changes only when its slot is given out for its protocol, and
then the handle is active. -/
theorem step_life {σ σ' : Adapter β} {op : Op β} {o : Answer β} (h : step σ op = some (σ', o))
    (s : Slot) (isTcp : Bool) :
    (GivenTo ⟨σ, op, o, σ'⟩ s isTcp ∧ ((σ'.sockets s).handle isTcp).life = .active) ∨
    (¬ GivenTo ⟨σ, op, o, σ'⟩ s isTcp ∧
      ((σ'.sockets s).handle isTcp).life = ((σ.sockets s).handle isTcp).life) := by
  cases hop : op.isCreate with
  | false =>
    refine Or.inr ⟨?_, ?_⟩
    · rintro ⟨param, isIpv6, t, hact, -⟩
      simp only at hact
      rw [hact] at hop
      exact absurd hop (by simp [Op.isCreate])
    · have hfixed := (step_keeps h hop).fixed s
      simp only [UvConn.fixed, Prod.mk.injEq] at hfixed
      cases isTcp with
      | true => exact hfixed.1
      | false => exact hfixed.2.1
  | true =>
    cases op with
    | create isTcp' param isIpv6 =>
      cases h
      cases hf : σ.findFree with
      | none =>
        rw [libuvCreateSocket_of_none hf]
        refine Or.inr ⟨?_, rfl⟩
        rintro ⟨-, -, t, -, hout⟩
        exact absurd hout (by simp [HandsOut])
      | some s₀ =>
        obtain ⟨hout, hsock⟩ := libuvCreateSocket_of_some hf isTcp' param isIpv6
        rw [hsock s]
        by_cases hs : s = s₀
        · subst hs
          rw [if_pos rfl]
          by_cases htcp : isTcp = isTcp'
          · subst htcp
            refine Or.inl ⟨⟨param, isIpv6, σ.socketTagCounter, rfl, ?_⟩, allocate_handle_self ..⟩
            simp [HandsOut, hout]
          · refine Or.inr ⟨?_, by rw [allocate_handle_of_ne _ htcp]⟩
            rintro ⟨_, _, _, hact, -⟩
            cases hact
            exact htcp rfl
        · rw [if_neg hs]
          refine Or.inr ⟨?_, rfl⟩
          rintro ⟨-, -, t, -, hgiven⟩
          simp only [HandsOut, hout, Answer.created.injEq] at hgiven
          exact hs (Fin.ext (by omega))
    | _ => cases hop

/-- **A handle is active from the first create that used it**, whatever happens
to its slot. -/
theorem handle_life_run {tr : List (Trans β)} {σ : Adapter β} (h : Run (machine β) tr σ)
    (s : Slot) (isTcp : Bool) :
    (((σ.sockets s).handle isTcp).life = .active ∧ ∃ e ∈ tr, GivenTo e s isTcp) ∨
    (((σ.sockets s).handle isTcp).life = .uninit ∧ ∀ e ∈ tr, ¬ GivenTo e s isTcp) := by
  induction h with
  | start => exact Or.inr ⟨by cases isTcp <;> rfl, by simp⟩
  | @snoc tr σ σ' op o hrun hs ih =>
    rcases step_life hs s isTcp with ⟨hgiven, hlife⟩ | ⟨hnot, hlife⟩
    · exact Or.inl ⟨hlife, _, by simp, hgiven⟩
    · rw [hlife]
      rcases ih with ⟨hact, e, he, hgiven⟩ | ⟨huninit, hnone⟩
      · exact Or.inl ⟨hact, e, by simp [he], hgiven⟩
      · refine Or.inr ⟨huninit, fun e he => ?_⟩
        rcases List.mem_append.1 he with he | he
        · exact hnone e he
        · rw [List.mem_singleton.1 he]
          exact hnot

/-- **The life cycle of the handles is kept exactly in the runs that never reuse a
slot for the same protocol.** -/
theorem init_allowed_iff {tr : List (Trans β)} {σ : Adapter β} (h : Run (machine β) tr σ) :
    (∀ e ∈ tr, InitOk e) ↔
      ∀ pre e post, tr = pre ++ e :: post → ∀ isTcp param isIpv6,
        e.act = .create isTcp param isIpv6 → ∀ s, e.src.findFree = some s →
          ∀ e' ∈ pre, ¬ GivenTo e' s isTcp := by
  constructor
  · intro hok pre e post he isTcp param isIpv6 hact s hfree e' he' hgiven
    obtain ⟨hpre, -⟩ := h.split he
    have hinit := hok e (by simp [he])
    unfold InitOk at hinit
    rw [hact] at hinit
    rcases handle_life_run hpre s isTcp with ⟨hlife, -⟩ | ⟨-, hnone⟩
    · rcases hinit s hfree with hc | hc
      · rw [hlife] at hc
        cases hc
      · rw [hlife] at hc
        cases hc
    · exact hnone e' he' hgiven
  · intro hfresh e he
    obtain ⟨pre, post, heq⟩ := List.append_of_mem he
    obtain ⟨hpre, -⟩ := h.split heq
    unfold InitOk
    split
    · rename_i isTcp param isIpv6 hact
      intro s hfree
      rcases handle_life_run hpre s isTcp with ⟨-, e', he', hgiven⟩ | ⟨hlife, -⟩
      · exact absurd hgiven (hfresh pre e post heq isTcp param isIpv6 hact s hfree e' he')
      · exact Or.inl hlife
    · trivial

/-- One TCP and one UDP socket. -/
def twoOps : List (Op UInt8) := [.create true 0 false, .create false 0 false]

theorem init_allowed_iff_two : creates ((machine UInt8).traceOf twoOps) = 2 ∧
    ∀ e ∈ (machine UInt8).traceOf twoOps, InitOk e := by
  have hexec : ((machine UInt8).exec (machine UInt8).init twoOps).isSome = true := by decide
  refine ⟨by decide, (init_allowed_iff (Machine.run_exec hexec)).2 ?_⟩
  intro pre e post heq
  refine Machine.along_traceOf (C := fun pre e => ∀ isTcp param isIpv6,
    e.act = .create isTcp param isIpv6 → ∀ s, e.src.findFree = some s →
      ∀ e' ∈ pre, ¬ GivenTo e' s isTcp) ?_ heq
  refine ⟨?_, ?_, trivial⟩
  · intro _ _ _ _ _ _ e' he'
    exact absurd he' List.not_mem_nil
  · intro isTcp _ _ hact s _ e' he' hgiven
    cases hact
    rw [List.mem_singleton.1 he'] at hgiven
    obtain ⟨_, _, _, hact', -⟩ := hgiven
    cases hact'

/-- The tenth call of `reuseOps` initialises the TCP handle of slot 0 while it is
active: it was never passed to `uv_close`. -/
theorem handle_initialised_twice :
    Run (machine UInt8) ((machine UInt8).traceOf reuseOps) ((machine UInt8).stateOf reuseOps) ∧
      ∃ e ∈ (machine UInt8).traceOf reuseOps, e.act = .create true 0 false ∧
        e.src.findFree = some 0 ∧ (e.src.sockets 0).tcp.life = .active ∧ ¬ InitOk e := by
  have h9 : 9 < ((machine UInt8).traceOf reuseOps).length := by decide
  have hfree : ((machine UInt8).traceOf reuseOps)[9].src.findFree = some 0 := by decide +revert
  refine ⟨Machine.run_exec (by decide), ((machine UInt8).traceOf reuseOps)[9], List.getElem_mem h9,
    rfl, hfree, rfl, ?_⟩
  intro hok
  rcases hok 0 hfree with hc | hc <;> cases hc

end Libuv
end LuatosPc
