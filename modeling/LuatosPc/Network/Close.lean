import LuatosPc.Network.Callbacks

/-!
# The acknowledgement of a close

An owner that closes a socket waits for `EV_NW_SOCKET_CLOSE_OK`.  A call that
returned 0 has a libuv request behind it whose callback sends the event, unless
the callback finds the slot `SC_CLOSED` already, and then it sends nothing.
There are two ways for that to happen: `close_socket` marks the slot itself when
libuv refuses a second request, and `on_connect` marks it when a connect fails.

* `closeOks` — how often the close of a tag was reported.
* `Unreported` — a tag in use was never reported closed; with it a close is
  reported at most once.
* `SlotView.awaiting_step` — a slot whose close is under way stays so until its
  callback runs.
* `close_acknowledged_once` — exactly one event, in every run in which neither of
  the two happens (`AckOk`), and `close_never_acknowledged` — a run in which one
  does.
-/

namespace LuatosPc
namespace Libuv

open Adapter

variable {β : Type}

/-! ## On the slot machine -/

namespace SlotView

/-- The close of the socket with tag `t` is under way on the slot. -/
structure Awaiting (v : SlotView) (t : UInt64) : Prop where
  tag : v.tag = t
  notClosed : v.state ≠ .closed
  owed : 0 < v.shutdowns ∨ 0 < v.closes

/-- A close under way stays so until its callback runs, as long as no further
request is refused, no connect fails and nobody closes the socket by force. -/
theorem awaiting_step {v v' : SlotView} {a : SlotAct} {t : UInt64} (hv : v.Awaiting t)
    (ht : t ≠ 0) (h : v.step a = some v') (hclose : ∀ accepted, a = .close t accepted →
      accepted = true) (hforce : ∀ accepted, a ≠ .forceClose accepted)
    (hfail : a ≠ .connectFailed) (hshut : a ≠ .shutdown) (hasync : a ≠ .asyncClose) :
    v'.Awaiting t := by
  obtain ⟨rfl, hopen, howed⟩ := hv
  have hrel : ¬ v.Released := fun hr => hr.elim ht hopen
  cases a with
  | other => cases h; exact ⟨rfl, hopen, howed⟩
  | create isTcp t =>
    simp only [SlotView.step, Option.ite_none_right_eq_some] at h
    exact absurd h.1.1 ht
  | connect t =>
    simp only [SlotView.step, Option.ite_none_left_eq_some, Option.some.injEq] at h
    obtain ⟨-, rfl⟩ := h
    exact ⟨rfl, by simp, howed⟩
  | close t accepted =>
    cases h
    split
    · exact ⟨rfl, hopen, howed⟩
    · rename_i hc
      rw [not_or, not_not] at hc
      rw [hclose accepted (by rw [hc.2])]
      unfold requestClose
      rw [if_neg (by simp)]
      split
      · exact ⟨rfl, hopen, Or.inl (Nat.succ_pos _)⟩
      · exact ⟨rfl, hopen, Or.inr (Nat.succ_pos _)⟩
  | forceClose accepted => exact absurd rfl (hforce accepted)
  | clean =>
    cases h
    rw [cleaned, if_neg hrel]
    exact ⟨rfl, hopen, howed⟩
  | connected =>
    simp only [SlotView.step, Option.ite_none_left_eq_some, Option.some.injEq] at h
    obtain ⟨-, rfl⟩ := h
    exact ⟨rfl, by simp, howed⟩
  | connectFailed => exact absurd rfl hfail
  | shutdown => exact absurd rfl hshut
  | asyncClose => exact absurd rfl hasync
  | eof =>
    cases h
    unfold remoteClosed
    split
    · exact ⟨rfl, hopen, howed⟩
    · exact ⟨rfl, by simp, howed⟩
  | readError =>
    cases h
    rw [readFailed, if_neg hopen]
    exact ⟨rfl, by simp, howed⟩

end SlotView

/-! ## Reporting a close -/

/-- How often the close of the socket with tag `t` was reported. -/
def closeOks (σ : Adapter β) (t : UInt64) : Nat :=
  σ.events.countP fun ev => ev.id = .socketCloseOk ∧ ev.tag = t

theorem ReportsClose.opEvents {e : Trans β} {s : Slot} {t : UInt64} (h : ReportsClose e s t) :
    opEvents e.src e.act = [⟨.socketCloseOk, s, 0, (e.src.sockets s).param, t⟩] := by
  obtain ⟨hact, hrel, rfl⟩ := h
  rw [view_released] at hrel
  rcases hact with hact | hact
  · rw [hact, Libuv.opEvents, if_neg hrel]
    rfl
  · rw [hact, Libuv.opEvents, if_neg hrel]
    rfl

/-- The socket is gone once its close is reported. -/
theorem ReportsClose.dst_tag {e : Trans β} (hstep : step e.src e.act = some (e.dst, e.out))
    {s : Slot} {t : UInt64} (h : ReportsClose e s t) : (e.dst.sockets s).tag = 0 := by
  have hview := view_step hstep s
  rcases h.slotAct with ha | ha
  · rw [ha] at hview
    simp only [SlotView.step, Option.ite_none_left_eq_some, Option.some.injEq] at hview
    rw [SlotView.shut, if_neg (by exact h.inUse)] at hview
    exact (congrArg SlotView.tag hview.2).symm
  · rw [ha] at hview
    simp only [SlotView.step, Option.ite_none_left_eq_some, Option.some.injEq] at hview
    rw [SlotView.closeDone, if_neg (by exact h.inUse)] at hview
    exact (congrArg SlotView.tag hview.2).symm

/-- A step reports the close of `t` once or not at all. -/
theorem step_closeOks {e : Trans β} (h : step e.src e.act = some (e.dst, e.out)) (t : UInt64) :
    (closeOks e.dst t = closeOks e.src t ∧ ∀ s, ¬ ReportsClose e s t) ∨
    (∃ s, ReportsClose e s t ∧ closeOks e.dst t = closeOks e.src t + 1) := by
  have hcount : closeOks e.dst t = closeOks e.src t +
      (opEvents e.src e.act).countP fun ev => ev.id = .socketCloseOk ∧ ev.tag = t := by
    unfold closeOks
    rw [step_events h, List.countP_append]
  by_cases hrep : ∃ s, ReportsClose e s t
  · obtain ⟨s, hs⟩ := hrep
    refine Or.inr ⟨s, hs, ?_⟩
    rw [hcount, hs.opEvents]
    simp
  · refine Or.inl ⟨?_, fun s hs => hrep ⟨s, hs⟩⟩
    rw [hcount, Nat.add_eq_left, List.countP_eq_zero]
    intro ev hmem hev
    simp only [Bool.decide_and, Bool.and_eq_true, decide_eq_true_eq] at hev
    obtain ⟨hid, rfl⟩ := hev
    exact hrep ⟨ev.slot, Emits.closeOk h ⟨_, step_events h, hmem⟩ hid⟩

/-- Closes reported so far belong to tags already handed out, and none to a tag in
use. -/
structure Unreported (σ : Adapter β) : Prop where
  below : ∀ ev ∈ σ.events, ev.id = .socketCloseOk → ev.tag < σ.socketTagCounter
  inUse : ∀ s, (σ.sockets s).tag ≠ 0 → closeOks σ (σ.sockets s).tag = 0

theorem counter_mono {tr : List (Trans β)} {σ σ' : Adapter β} {op : Op β} {o : Answer β}
    (h : Run (machine β) tr σ) (hs : step σ op = some (σ', o))
    (hb : creates (tr ++ [⟨σ, op, o, σ'⟩]) < 2 ^ 64 - 0xFAFB) :
    σ.socketTagCounter ≤ σ'.socketTagCounter := by
  have hle := creates_append_le tr [⟨σ, op, o, σ'⟩]
  have hnat := counter_toNat h (by omega)
  have hnat' := counter_toNat (h.snoc hs) hb
  rw [UInt64.le_iff_toNat_le]
  omega

theorem Unreported.step {tr : List (Trans β)} {σ σ' : Adapter β} {op : Op β} {o : Answer β}
    (hu : Unreported σ) (h : Run (machine β) tr σ) (hs : step σ op = some (σ', o))
    (hb : creates (tr ++ [⟨σ, op, o, σ'⟩]) < 2 ^ 64 - 0xFAFB) : Unreported σ' := by
  have hmono := counter_mono h hs hb
  have htags := tagsOk_run h (lt_of_le_of_lt (creates_append_le tr _) hb)
  set e : Trans β := ⟨σ, op, o, σ'⟩ with he
  have hstep : Libuv.step e.src e.act = some (e.dst, e.out) := hs
  constructor
  · intro ev hev hid
    rw [step_events hs] at hev
    rcases List.mem_append.1 hev with hold | hnew
    · exact UInt64.lt_of_lt_of_le (hu.below ev hold hid) hmono
    · have hrep := Emits.closeOk hstep ⟨_, step_events hs, hnew⟩ hid
      rw [← hrep.tag]
      exact UInt64.lt_of_lt_of_le (htags.below _ fun h0 => hrep.inUse (Or.inl h0)) hmono
  · intro s htag
    rcases step_tag hs s with ho | heq | h0
    · -- the slot has just been handed out, with a tag no event carries
      obtain ⟨hcr, -, hcount⟩ := handsOut_step hs ho
      rw [hcount]
      rcases step_closeOks hstep σ.socketTagCounter with ⟨hsame, -⟩ | ⟨s₁, hrep, -⟩
      · refine hsame.trans (List.countP_eq_zero.2 ?_)
        intro ev hmem hev
        simp only [Bool.decide_and, Bool.and_eq_true, decide_eq_true_eq] at hev
        have hlt := hu.below ev hmem hev.1
        rw [hev.2] at hlt
        exact absurd hlt (UInt64.lt_irrefl _)
      · rcases hrep.act with hact | hact
        · have hop : op = .onShutdown s₁ true := hact
          rw [hop] at hcr
          exact absurd hcr (by simp [Op.isCreate])
        · have hop : op = .udpAsyncClose s₁ true := hact
          rw [hop] at hcr
          exact absurd hcr (by simp [Op.isCreate])
    · rw [heq] at htag ⊢
      rcases step_closeOks hstep (σ.sockets s).tag with ⟨hsame, -⟩ | ⟨s₁, hrep, -⟩
      · exact hsame.trans (hu.inUse s htag)
      · -- the tag reported is in one slot only, and it is gone
        have hs₁ : s₁ = s := by
          by_contra hne
          exact htags.distinct s s₁ (Ne.symm hne) htag hrep.tag.symm
        subst hs₁
        have hzero := hrep.dst_tag hstep
        exact absurd (heq.symm.trans hzero) htag
    · exact absurd h0 htag

/-- **A tag in use was never reported closed.** -/
theorem unreported_run {tr : List (Trans β)} {σ : Adapter β} (h : Run (machine β) tr σ)
    (hb : creates tr < 2 ^ 64 - 0xFAFB) : Unreported σ := by
  induction h with
  | start => exact ⟨by simp [machine, Adapter.start], fun s h => absurd rfl h⟩
  | snoc hrun hs ih =>
    exact (ih (lt_of_le_of_lt (creates_append_le _ _) hb)).step hrun hs hb

/-! ## A close that returned 0 -/

/-- `libuv_socket_disconnect` or `libuv_socket_close` on slot `s` with tag `t`
returned 0. -/
def Acked (tr : List (Trans β)) (s : Slot) (t : UInt64) : Prop :=
  ∃ e ∈ tr, CallsClose e s t ∧ e.out = .code 0

/-- `libuv_socket_force_close` was not called on the socket with tag `t`. -/
def NotForced (tr : List (Trans β)) (s : Slot) (t : UInt64) : Prop :=
  ∀ e ∈ tr, ∀ id ret, e.act = .forceClose id ret → slotOf id = some s → (e.src.sockets s).tag ≠ t

/-- Once a close of a socket has returned 0, libuv refuses no further close of it,
no connect of it fails, and the event of its close callback can be posted. -/
def AckOk (pre : List (Trans β)) (e : Trans β) : Prop :=
  match e.act with
  | .disconnect id t ret | .close id t ret =>
      ∀ s, e.src.checkSocketId id t = some s → Acked pre s t → ret = 0
  | .onConnect s status _ _ => Acked pre s (e.src.sockets s).tag → status = 0
  | .onShutdown s posted | .udpAsyncClose s posted =>
      Acked pre s (e.src.sockets s).tag → posted = true
  | _ => True

theorem closeSocket_ret (σ : Adapter β) (s : Slot) (ret : Int) : (σ.closeSocket s ret).2 = ret := by
  unfold closeSocket
  split
  · split
    · rfl
    · rename_i h
      exact (not_not.1 h).symm
  · dsimp only
    split
    · rfl
    · rename_i h
      exact (not_not.1 h).symm

/-- A close that returns 0 found the socket, and libuv accepted the request. -/
theorem CallsClose.accepted {e : Trans β} (h : step e.src e.act = some (e.dst, e.out)) {s : Slot}
    {t : UInt64} (hcall : CallsClose e s t) (hout : e.out = .code 0) :
    slotAct s e = .close t true ∧ ¬ (e.src.view s).Released ∧ (e.src.view s).tag = t := by
  obtain ⟨id, ret, hact, hid⟩ := hcall
  rcases hact with hact | hact
  · simp only [hact, step, hout, Option.some.injEq, Prod.mk.injEq, Answer.code.injEq] at h
    cases hc : e.src.checkSocketId id t with
    | none => simp [libuvSocketDisconnect, hc] at h
    | some s' =>
      obtain ⟨hid', hrel, htag⟩ := checkSocketId_eq_some.1 hc
      obtain rfl : s' = s := Option.some.inj (hid'.symm.trans hid)
      have hst : (e.src.sockets s').state ≠ .closed := fun hc => hrel (Or.inr hc)
      have hret : ret = 0 := by
        simpa [libuvSocketDisconnect, hc, hst, closeSocket_ret] using h.2
      exact ⟨by simp [slotAct, hact, hid, hret], hrel, htag⟩
  · simp only [hact, step, hout, Option.some.injEq, Prod.mk.injEq, Answer.code.injEq] at h
    cases hc : e.src.checkSocketId id t with
    | none => simp [libuvSocketClose, hc] at h
    | some s' =>
      obtain ⟨hid', hrel, htag⟩ := checkSocketId_eq_some.1 hc
      obtain rfl : s' = s := Option.some.inj (hid'.symm.trans hid)
      have hret : ret = 0 := by
        simpa [libuvSocketClose, hc, ← view_released, hrel, closeSocket_ret] using h.2
      exact ⟨by simp [slotAct, hact, hid, hret], hrel, htag⟩

/-- Where a socket stands whose close returned 0: its close is under way and not
reported yet, or it is gone and its close was reported once. -/
structure CloseStands (σ : Adapter β) (s : Slot) (t : UInt64) : Prop where
  nonzero : t ≠ 0
  issued : t < σ.socketTagCounter
  stands : ((σ.view s).Awaiting t ∧ closeOks σ t = 0) ∨ ((σ.sockets s).tag ≠ t ∧ closeOks σ t = 1)

/-- The call that returns 0 starts the close. -/
theorem CloseStands.of_call {tr : List (Trans β)} {e : Trans β} (hrun : Run (machine β) tr e.src)
    (h : step e.src e.act = some (e.dst, e.out))
    (hb : creates (tr ++ [e]) < 2 ^ 64 - 0xFAFB) {s : Slot} {t : UInt64}
    (hcall : CallsClose e s t) (hout : e.out = .code 0) : CloseStands e.dst s t := by
  obtain ⟨ha, hrel, htag⟩ := hcall.accepted h hout
  have hb' := lt_of_le_of_lt (creates_append_le tr [e]) hb
  have h0 : t ≠ 0 := fun h0 => hrel (Or.inl (htag.trans h0))
  have hview := view_step h s
  rw [ha] at hview
  simp only [SlotView.step, if_neg (not_or.2 ⟨hrel, not_not.2 htag⟩), Option.some.injEq] at hview
  refine ⟨h0, ?_, Or.inl ⟨?_, ?_⟩⟩
  · have hlt := (tagsOk_run hrun hb').below s fun hc => hrel (Or.inl hc)
    have htag' : (e.src.sockets s).tag = t := htag
    rw [htag'] at hlt
    exact UInt64.lt_of_lt_of_le hlt (counter_mono hrun h hb)
  · rw [← hview]
    have hst : (e.src.view s).state ≠ .closed := fun hc => hrel (Or.inr hc)
    unfold SlotView.requestClose
    rw [if_neg (by simp)]
    split
    · exact ⟨htag, hst, Or.inl (Nat.succ_pos _)⟩
    · exact ⟨htag, hst, Or.inr (Nat.succ_pos _)⟩
  · have hzero := (unreported_run hrun hb').inUse s fun hc => hrel (Or.inl hc)
    have htag' : (e.src.sockets s).tag = t := htag
    rw [htag'] at hzero
    rcases step_closeOks h t with ⟨hsame, -⟩ | ⟨s₁, hrep, -⟩
    · exact hsame.trans hzero
    · obtain ⟨id, ret, hact, -⟩ := hcall
      rcases hrep.act with hact' | hact' <;> rcases hact with hact | hact <;>
        · rw [hact] at hact'
          cases hact'

/-- A close under way stays so in a step that meets `AckOk` and does not report
it. -/
theorem awaiting_of_not_reported {tr : List (Trans β)} {e : Trans β}
    (h : step e.src e.act = some (e.dst, e.out)) {s : Slot} {t : UInt64} (ht : t ≠ 0)
    (hv : (e.src.view s).Awaiting t) (hack : Acked tr s t) (hforce : NotForced (tr ++ [e]) s t)
    (hok : AckOk tr e) (hrep : ∀ s, ¬ ReportsClose e s t) : (e.dst.view s).Awaiting t := by
  have htag : (e.src.sockets s).tag = t := hv.tag
  have hrel : ¬ (e.src.view s).Released := fun hr =>
    hr.elim (fun h0 => ht (htag.symm.trans h0)) hv.notClosed
  unfold AckOk at hok
  refine SlotView.awaiting_step hv ht (view_step h s) ?_ ?_ ?_ ?_ ?_
  · intro accepted ha
    obtain ⟨id, ret, hact, hid, rfl⟩ := slotAct_eq_close ha
    have hcheck := checkSocketId_eq_some.2 ⟨hid, hrel, hv.tag⟩
    rcases hact with hact | hact
    · rw [hact] at hok
      exact decide_eq_true (hok s hcheck hack)
    · rw [hact] at hok
      exact decide_eq_true (hok s hcheck hack)
  · intro accepted ha
    obtain ⟨id, ret, hact, hid⟩ := slotAct_eq_forceClose ha
    exact hforce e (by simp) id ret hact hid htag
  · intro ha
    obtain ⟨status, readRet, posted, hact, hne⟩ := slotAct_eq_connectFailed ha
    rw [hact] at hok
    exact hne (hok (by rw [htag]; exact hack))
  · intro ha
    obtain ⟨posted, hact⟩ := slotAct_eq_shutdown ha
    rw [hact] at hok
    have hposted := hok (by rw [htag]; exact hack)
    exact hrep s ⟨Or.inl (by rw [hact, hposted]), hrel, htag⟩
  · intro ha
    obtain ⟨posted, hact⟩ := slotAct_eq_asyncClose ha
    rw [hact] at hok
    have hposted := hok (by rw [htag]; exact hack)
    exact hrep s ⟨Or.inr (by rw [hact, hposted]), hrel, htag⟩

/-- A tag that was handed out and is gone from a slot does not come back. -/
theorem tag_ne_of_step {e : Trans β} (h : step e.src e.act = some (e.dst, e.out)) {s : Slot}
    {t : UInt64} (ht : t ≠ 0) (hlt : t < e.src.socketTagCounter)
    (hne : (e.src.sockets s).tag ≠ t) : (e.dst.sockets s).tag ≠ t := by
  rcases step_tag h s with ho | heq | h0
  · rw [(handsOut_step h ho).2.2]
    rintro rfl
    exact absurd hlt (UInt64.lt_irrefl _)
  · rw [heq]
    exact hne
  · rw [h0]
    exact Ne.symm ht

/-- A step of a run that meets `AckOk` keeps the standing of a close. -/
theorem CloseStands.step {tr : List (Trans β)} {e : Trans β} (hrun : Run (machine β) tr e.src)
    (h : Libuv.step e.src e.act = some (e.dst, e.out))
    (hb : creates (tr ++ [e]) < 2 ^ 64 - 0xFAFB) {s : Slot} {t : UInt64}
    (hst : CloseStands e.src s t) (hack : Acked tr s t) (hforce : NotForced (tr ++ [e]) s t)
    (hok : AckOk tr e) : CloseStands e.dst s t := by
  have hb' := lt_of_le_of_lt (creates_append_le tr [e]) hb
  refine ⟨hst.nonzero, UInt64.lt_of_lt_of_le hst.issued (counter_mono hrun h hb), ?_⟩
  rcases step_closeOks h t with ⟨hsame, hrep⟩ | ⟨s₁, hrep, hcount⟩
  · rw [hsame]
    rcases hst.stands with ⟨hv, hzero⟩ | ⟨hne, hone⟩
    · exact Or.inl ⟨awaiting_of_not_reported h hst.nonzero hv hack hforce hok hrep, hzero⟩
    · exact Or.inr ⟨tag_ne_of_step h hst.nonzero hst.issued hne, hone⟩
  · -- the close is reported now, so it was not before, and the socket is gone
    have hin : (e.src.sockets s₁).tag ≠ 0 := by
      rw [hrep.tag]
      exact hst.nonzero
    have hzero := (unreported_run hrun hb').inUse s₁ hin
    rw [hrep.tag] at hzero
    refine Or.inr ⟨?_, by rw [hcount, hzero]⟩
    by_cases hs : s = s₁
    · subst hs
      rw [hrep.dst_tag h]
      exact Ne.symm hst.nonzero
    · refine tag_ne_of_step h hst.nonzero hst.issued ?_
      intro hc
      exact (tagsOk_run hrun hb').distinct s₁ s (Ne.symm hs) hin (hrep.tag.trans hc.symm)

theorem acked_snoc {tr : List (Trans β)} {e : Trans β} {s : Slot} {t : UInt64}
    (h : Acked (tr ++ [e]) s t) : Acked tr s t ∨ (CallsClose e s t ∧ e.out = .code 0) := by
  obtain ⟨e', he', hcall⟩ := h
  rcases List.mem_append.1 he' with he' | he'
  · exact Or.inl ⟨e', he', hcall⟩
  · rw [List.mem_singleton.1 he'] at hcall
    exact Or.inr hcall

/-- Where every close that returned 0 stands, after a run that meets `AckOk`. -/
theorem closeStands_run {tr : List (Trans β)} {σ : Adapter β} (h : Run (machine β) tr σ)
    (hb : creates tr < 2 ^ 64 - 0xFAFB)
    (hok : ∀ pre e post, tr = pre ++ e :: post → AckOk pre e) :
    ∀ s t, Acked tr s t → NotForced tr s t → CloseStands σ s t := by
  refine h.history_invariant
    (I := fun tr σ => ∀ s t, Acked tr s t → NotForced tr s t → CloseStands σ s t)
    (C := fun pre e => AckOk pre e ∧ creates (pre ++ [e]) < 2 ^ 64 - 0xFAFB) ?_ ?_ ?_
  · intro pre e post he
    refine ⟨hok pre e post he, lt_of_le_of_lt (creates_append_le (pre ++ [e]) post) ?_⟩
    rwa [List.append_assoc, List.singleton_append, ← he]
  · rintro s t ⟨e, he, -⟩
    exact absurd he List.not_mem_nil
  · intro tr σ op σ' o hrun hI hstep hC s t hack hforce
    rcases acked_snoc hack with hbefore | ⟨hcall, hout⟩
    · have hst := hI s t hbefore fun e he => hforce e (by simp [he])
      exact CloseStands.step (e := ⟨σ, op, o, σ'⟩) hrun hstep hC.2 hst hbefore hforce hC.1
    · exact CloseStands.of_call (e := ⟨σ, op, o, σ'⟩) hrun hstep hC.2 hcall hout

/-- **A close is acknowledged exactly once.**  In every run that meets `AckOk`
and makes fewer than `2 ^ 64 - 0xFAFB` create calls, if a disconnect or close of
the socket with tag `t` on slot `s` returned 0 and nobody closed it by force, then
in every state in which libuv owes the slot nothing exactly one
`EV_NW_SOCKET_CLOSE_OK` with tag `t` was sent. -/
theorem close_acknowledged_once {tr : List (Trans β)} {σ : Adapter β} (h : Run (machine β) tr σ)
    (hb : creates tr < 2 ^ 64 - 0xFAFB) (hok : ∀ pre e post, tr = pre ++ e :: post → AckOk pre e)
    {s : Slot} {t : UInt64} (hack : Acked tr s t) (hforce : NotForced tr s t) (hq : Quiet s σ) :
    closeOks σ t = 1 := by
  rcases (closeStands_run h hb hok s t hack hforce).stands with ⟨hv, -⟩ | ⟨-, hone⟩
  · obtain ⟨-, hshut, hclose⟩ := hq.view
    rcases hv.owed with hpos | hpos
    · omega
    · omega
  · exact hone

/-- A TCP socket connects, reads to the end of the stream, and is closed. -/
def tcpCloseOps : List (Op UInt8) :=
  [.create true 0 false, .connect 0 0xFAFB 0, .onConnect 0 0 0 true, .onRecv 0 .eof true true,
    .close 0 0xFAFB 0, .onShutdown 0 true]

theorem close_acknowledged_once_tcp :
    closeOks ((machine UInt8).stateOf tcpCloseOps) 0xFAFB = 1 := by
  have hexec : ((machine UInt8).exec (machine UInt8).init tcpCloseOps).isSome = true := by decide
  have hok : (machine UInt8).Along AckOk [] (machine UInt8).init tcpCloseOps := by
    refine ⟨trivial, trivial, fun _ => rfl, trivial, ?_, fun _ => rfl, trivial⟩
    exact fun _ _ _ => rfl
  have h4 : 4 < ((machine UInt8).traceOf tcpCloseOps).length := by decide
  refine close_acknowledged_once (Machine.run_exec hexec) (by decide)
    (fun pre e post heq => Machine.along_traceOf hok heq) (s := 0) ?_ ?_ ?_
  · exact ⟨((machine UInt8).traceOf tcpCloseOps)[4], List.getElem_mem h4,
      ⟨0, 0, Or.inr rfl, rfl⟩, rfl⟩
  · intro e he id ret hact
    have hmem := Machine.act_mem_of_mem_traceOf he
    rw [hact] at hmem
    exact absurd hmem (by simp [tcpCloseOps])
  · exact ⟨List.not_mem_nil, List.not_mem_nil, List.not_mem_nil, List.not_mem_nil⟩

/-- The same socket is closed a second time before the first request is done:
libuv refuses, with `UV_ENOTCONN`. -/
def closeAgainOps : List (Op UInt8) :=
  [.create true 0 false, .connect 0 0xFAFB 0, .onConnect 0 0 0 true, .onRecv 0 .eof true true,
    .close 0 0xFAFB 0, .close 0 0xFAFB (-107), .onShutdown 0 true]

/-- The close that returned 0 is never acknowledged. -/
theorem close_never_acknowledged :
    Run (machine UInt8) ((machine UInt8).traceOf closeAgainOps)
        ((machine UInt8).stateOf closeAgainOps) ∧
      Acked ((machine UInt8).traceOf closeAgainOps) 0 0xFAFB ∧
      NotForced ((machine UInt8).traceOf closeAgainOps) 0 0xFAFB ∧
      ((machine UInt8).stateOf closeAgainOps).pending = [] ∧
      (((machine UInt8).stateOf closeAgainOps).sockets 0).tcp.reading = false ∧
      closeOks ((machine UInt8).stateOf closeAgainOps) 0xFAFB = 0 := by
  have h4 : 4 < ((machine UInt8).traceOf closeAgainOps).length := by decide
  refine ⟨Machine.run_exec (by decide), ?_, ?_, rfl, rfl, by decide⟩
  · exact ⟨((machine UInt8).traceOf closeAgainOps)[4], List.getElem_mem h4,
      ⟨0, 0, Or.inr rfl, rfl⟩, rfl⟩
  · intro e he id ret hact
    have hmem := Machine.act_mem_of_mem_traceOf he
    rw [hact] at hmem
    exact absurd hmem (by simp [closeAgainOps])

end Libuv
end LuatosPc
