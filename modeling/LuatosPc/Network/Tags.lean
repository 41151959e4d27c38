import LuatosPc.Network.Slot

/-!
# Tags: a stale handle never fits again

A slot number is used over and over; what tells two sockets on one slot apart is
the tag, which `libuv_create_socket` takes from a 64-bit counter.  As long as
the counter has not gone round, the tag in a slot is younger than every tag the
slot was handed out with before, so an owner who comes back with an old pair
(slot, tag) is turned away by `CHECK_SOCKET_ID`.

* `counter_eq` — the counter counts the create calls, failed ones included.
* `TagsOk` — tags are pairwise distinct and below the counter, and a slot holds
  no tag older than one it was handed out with (`tagsOk_run`).
* `libuvCreateSocket_fail_iff`, `libuvCreateSocket_frame` — create fails only on
  a full table and touches the slot it returns only.
* `stale_handles_rejected` — all of it over every run.
-/

namespace LuatosPc
namespace Libuv

open Adapter

variable {β : Type}

/-- What the action does to the tag counter. -/
def Op.tick (op : Op β) (n : UInt64) : UInt64 := if op.isCreate then n + 1 else n

/-- The number of create calls of a run. -/
def creates (tr : List (Trans β)) : Nat := tr.countP fun e => e.act.isCreate

/-- The transition hands out slot `s` with tag `t`. -/
def HandsOut (e : Trans β) (s : Slot) (t : UInt64) : Prop := e.out = .created s.val (some t)

/-! ## The slot that create takes -/

theorem Adapter.probe_surjective (σ : Adapter β) (s : Slot) : ∃ iz < maxSockNum, σ.probe iz = s := by
  -- round `(s - next) mod 8` looks at slot `s`
  refine ⟨(s.val + 8 * 256 - σ.nextSocketIndex.toNat) % 8, Nat.mod_lt _ (by decide), ?_⟩
  have hs : s.val < 8 := s.isLt
  have hn := σ.nextSocketIndex.toNat_lt
  refine Fin.ext ?_
  simp only [probe, maxSockNum]
  omega

theorem findFree_eq_none_iff (σ : Adapter β) :
    σ.findFree = none ↔ ∀ s, (σ.sockets s).isFree = false := by
  unfold findFree
  rw [List.find?_eq_none]
  constructor
  · intro h s
    obtain ⟨iz, hiz, rfl⟩ := σ.probe_surjective s
    simpa using h _ (List.mem_map.2 ⟨iz, List.mem_range.2 hiz, rfl⟩)
  · intro h s _
    simp [h s]

/-- `libuv_create_socket` in a state whose first free slot is known. -/
theorem libuvCreateSocket_of_some {σ : Adapter β} {s : Slot} (hf : σ.findFree = some s)
    (isTcp : Bool) (param : Nat) (isIpv6 : Bool) :
    (σ.libuvCreateSocket isTcp param isIpv6).2 = ((s.val : Int), some σ.socketTagCounter) ∧
      ∀ s', (σ.libuvCreateSocket isTcp param isIpv6).1.sockets s' =
        if s' = s then (σ.sockets s).allocate isTcp σ.socketTagCounter param isIpv6
        else σ.sockets s' := by
  have hf' : ({ σ with socketTagCounter := σ.socketTagCounter + 1 } : Adapter β).findFree =
      some s := hf
  refine ⟨by simp [libuvCreateSocket, hf'], fun s' => ?_⟩
  simp [libuvCreateSocket, hf', modify_sockets]

theorem libuvCreateSocket_of_none {σ : Adapter β} (hf : σ.findFree = none) (isTcp : Bool)
    (param : Nat) (isIpv6 : Bool) : σ.libuvCreateSocket isTcp param isIpv6 =
      ({ σ with socketTagCounter := σ.socketTagCounter + 1 }, -1, none) := by
  have hf' : ({ σ with socketTagCounter := σ.socketTagCounter + 1 } : Adapter β).findFree =
      none := hf
  simp [libuvCreateSocket, hf']

/-- Create fails exactly on a full table. -/
theorem libuvCreateSocket_fail_iff (σ : Adapter β) (isTcp : Bool) (param : Nat) (isIpv6 : Bool) :
    (σ.libuvCreateSocket isTcp param isIpv6).2.1 = -1 ↔ ∀ s, (σ.sockets s).isFree = false := by
  rw [← findFree_eq_none_iff]
  cases hf : σ.findFree with
  | none => simp [libuvCreateSocket_of_none hf]
  | some s =>
    rw [(libuvCreateSocket_of_some hf isTcp param isIpv6).1]
    simp only [reduceCtorEq]

/-- Create changes no slot but the one it returns, which was free. -/
theorem libuvCreateSocket_frame {σ : Adapter β} {isTcp : Bool} {param : Nat} {isIpv6 : Bool}
    (h : (σ.libuvCreateSocket isTcp param isIpv6).2.1 ≠ -1) :
    ∃ s : Slot, (σ.libuvCreateSocket isTcp param isIpv6).2.1 = s.val ∧
      (σ.sockets s).isFree = true ∧
      ∀ s' ≠ s, (σ.libuvCreateSocket isTcp param isIpv6).1.sockets s' = σ.sockets s' := by
  cases hf : σ.findFree with
  | none => simp [libuvCreateSocket_of_none hf] at h
  | some s =>
    obtain ⟨hout, hsock⟩ := libuvCreateSocket_of_some hf isTcp param isIpv6
    refine ⟨s, by rw [hout], (isFree_iff σ s).2 (findFree_free hf), fun s' hs' => ?_⟩
    rw [hsock, if_neg hs']

/-! ## The counter -/

theorem libuvCreateSocket_counter (σ : Adapter β) (isTcp : Bool) (param : Nat) (isIpv6 : Bool) :
    (σ.libuvCreateSocket isTcp param isIpv6).1.socketTagCounter = σ.socketTagCounter + 1 := by
  unfold libuvCreateSocket
  dsimp only
  split <;> rfl

/-- Only a create call moves the counter. -/
theorem step_counter {σ σ' : Adapter β} {op : Op β} {o : Answer β}
    (h : step σ op = some (σ', o)) : σ'.socketTagCounter = op.tick σ.socketTagCounter := by
  cases hop : op.isCreate with
  | true =>
    cases op with
    | create isTcp param isIpv6 =>
      cases h
      exact libuvCreateSocket_counter ..
    | _ => cases hop
  | false =>
    rw [(step_keeps h hop).counter]
    simp [Op.tick, hop]

theorem creates_snoc (tr : List (Trans β)) (e : Trans β) :
    creates (tr ++ [e]) = creates tr + if e.act.isCreate then 1 else 0 := by
  simp [creates, List.countP_append, List.countP_cons]

theorem creates_append_le (tr tr' : List (Trans β)) : creates tr ≤ creates (tr ++ tr') := by
  simp [creates, List.countP_append]

/-- The counter counts the create calls. -/
theorem counter_eq {tr : List (Trans β)} {σ : Adapter β} (h : Run (machine β) tr σ) :
    σ.socketTagCounter = 0xFAFB + UInt64.ofNat (creates tr) := by
  induction h with
  | start => rfl
  | @snoc tr σ σ' op o hrun hs ih =>
    rw [step_counter hs, ih, creates_snoc]
    cases hop : op.isCreate with
    | true => simp [Op.tick, hop, UInt64.ofNat_add, UInt64.add_assoc]
    | false => simp [Op.tick, hop]

/-- As long as the counter has not gone round, it is the number of create calls
above its first value. -/
theorem counter_toNat {tr : List (Trans β)} {σ : Adapter β} (h : Run (machine β) tr σ)
    (hb : creates tr < 2 ^ 64 - 0xFAFB) : σ.socketTagCounter.toNat = 0xFAFB + creates tr := by
  rw [counter_eq h, UInt64.toNat_add, UInt64.toNat_ofNat']
  have h1 : (0xFAFB : UInt64).toNat = 0xFAFB := rfl
  rw [h1]
  omega

/-! ## Tags over a run -/

/-- What a transition that hands out a slot is. -/
theorem handsOut_step {σ σ' : Adapter β} {op : Op β} {o : Answer β} {s : Slot} {t : UInt64}
    (h : step σ op = some (σ', o)) (ho : o = .created s.val (some t)) :
    op.isCreate = true ∧ σ.findFree = some s ∧ t = σ.socketTagCounter := by
  cases op with
  | create isTcp param isIpv6 =>
    cases h
    simp only [Answer.created.injEq] at ho
    cases hf : σ.findFree with
    | none =>
      rw [libuvCreateSocket_of_none hf] at ho
      exact absurd ho.2 (by simp)
    | some s₀ =>
      rw [(libuvCreateSocket_of_some hf isTcp param isIpv6).1] at ho
      obtain ⟨h1, h2⟩ := ho
      have hs : s₀ = s := Fin.ext (by omega)
      exact ⟨rfl, by rw [hs], (Option.some.inj h2).symm⟩
  | receive id tag buf len =>
    simp only [step, Option.map_eq_some_iff, Prod.mk.injEq] at h
    obtain ⟨r, -, -, rfl⟩ := h
    exact absurd ho (by simp)
  | onRecv s₀ r room posted =>
    obtain ⟨-, -, rfl⟩ := step_onRecv_eq_some h
    exact absurd ho (by simp)
  | onRecvUdp s₀ d room posted =>
    obtain ⟨-, -, rfl⟩ := step_onRecvUdp_eq_some h
    exact absurd ho (by simp)
  | _ =>
    simp only [step] at h
    first
    | (cases h; exact absurd ho (by simp))
    | (obtain ⟨-, -, rfl⟩ := fire_eq_some h; exact absurd ho (by simp))

/-- A step leaves the tag of a slot, clears it, or hands the slot out with the
value of the counter. -/
theorem step_tag {σ σ' : Adapter β} {op : Op β} {o : Answer β} (h : step σ op = some (σ', o))
    (s : Slot) : (o = .created s.val (some (σ'.sockets s).tag)) ∨
      (σ'.sockets s).tag = (σ.sockets s).tag ∨ (σ'.sockets s).tag = 0 := by
  rcases (SlotView.step_frame (view_step h s)).tag with ⟨isTcp, ha⟩ | htag
  · exact Or.inl (slotAct_eq_create ha).2
  · exact Or.inr htag

/-- The order of the tags of a run. -/
structure TagsOk (tr : List (Trans β)) (σ : Adapter β) : Prop where
  /-- Tags in use are below the counter. -/
  below : ∀ s, (σ.sockets s).tag ≠ 0 → (σ.sockets s).tag < σ.socketTagCounter
  /-- No two slots share a tag. -/
  distinct : ∀ s s', s ≠ s' → (σ.sockets s).tag ≠ 0 → (σ.sockets s).tag ≠ (σ.sockets s').tag
  /-- A tag that was handed out is not zero and below the counter, and its slot
  holds no older one. -/
  issued : ∀ e ∈ tr, ∀ s t, HandsOut e s t →
    t ≠ 0 ∧ t < σ.socketTagCounter ∧ ((σ.sockets s).tag = 0 ∨ t ≤ (σ.sockets s).tag)

theorem TagsOk.start : TagsOk [] (Adapter.start : Adapter β) where
  below := fun s h => absurd rfl h
  distinct := fun s s' _ h => absurd rfl h
  issued := by simp

/-- A step that does not create keeps the order. -/
theorem TagsOk.step_other {tr : List (Trans β)} {σ σ' : Adapter β} {op : Op β} {o : Answer β}
    (hok : TagsOk tr σ) (h : step σ op = some (σ', o))
    (hno : ∀ (s : Slot) t, o ≠ .created s.val (some t)) (hc : σ.socketTagCounter ≤ σ'.socketTagCounter) :
    TagsOk (tr ++ [⟨σ, op, o, σ'⟩]) σ' := by
  have htag : ∀ s, (σ'.sockets s).tag = (σ.sockets s).tag ∨ (σ'.sockets s).tag = 0 := by
    intro s
    rcases step_tag h s with ho | htag
    · exact absurd ho (hno _ _)
    · exact htag
  constructor
  · intro s hs
    rcases htag s with heq | heq
    · rw [heq] at hs ⊢
      exact UInt64.lt_of_lt_of_le (hok.below s hs) hc
    · exact absurd heq hs
  · intro s s' hne hs
    rcases htag s with heq | heq
    · rw [heq] at hs ⊢
      rcases htag s' with heq' | heq'
      · rw [heq']; exact hok.distinct s s' hne hs
      · rw [heq']; exact hs
    · exact absurd heq hs
  · intro e he s t ht
    rcases List.mem_append.1 he with he | he
    · obtain ⟨h0, hlt, hle⟩ := hok.issued e he s t ht
      refine ⟨h0, UInt64.lt_of_lt_of_le hlt hc, ?_⟩
      rcases htag s with heq | heq
      · rw [heq]; exact hle
      · exact Or.inl heq
    · rw [List.mem_singleton.1 he] at ht
      exact absurd ht (hno _ _)

/-- A create that finds a slot keeps the order, as long as the counter does not
go round. -/
theorem TagsOk.step_create {tr : List (Trans β)} {σ σ' : Adapter β} {op : Op β} {s₀ : Slot}
    {t₀ : UInt64} (hok : TagsOk tr σ) (h : step σ op = some (σ', .created s₀.val (some t₀)))
    (hlt : σ.socketTagCounter < σ'.socketTagCounter) (hpos : σ.socketTagCounter ≠ 0) :
    TagsOk (tr ++ [⟨σ, op, .created s₀.val (some t₀), σ'⟩]) σ' := by
  obtain ⟨-, hfree, rfl⟩ := handsOut_step h rfl
  -- the slot handed out gets the counter, the others keep their tags or lose them
  have htag : ∀ s, (s = s₀ ∧ (σ'.sockets s).tag = σ.socketTagCounter) ∨
      (σ'.sockets s).tag = (σ.sockets s).tag ∨ (σ'.sockets s).tag = 0 := by
    intro s
    rcases step_tag h s with ho | htag
    · simp only [Answer.created.injEq, Option.some.injEq] at ho
      exact Or.inl ⟨Fin.ext (by omega), ho.2.symm⟩
    · exact Or.inr htag
  have hzero : (σ.sockets s₀).tag = 0 := (findFree_free hfree).1
  constructor
  · intro s hs
    rcases htag s with ⟨-, heq⟩ | heq | heq
    · rw [heq]; exact hlt
    · rw [heq] at hs ⊢
      exact UInt64.lt_trans (hok.below s hs) hlt
    · exact absurd heq hs
  · intro s s' hne hs
    rcases htag s with ⟨rfl, heq⟩ | heq | heq
    · -- the new tag is above every old one
      rcases htag s' with ⟨rfl, -⟩ | heq' | heq'
      · exact absurd rfl hne
      · rw [heq, heq']
        intro hc
        have := hok.below s' (by rw [← hc]; exact hpos)
        rw [← hc] at this
        exact absurd this (UInt64.lt_irrefl _)
      · rw [heq, heq']; exact hpos
    · rw [heq] at hs ⊢
      rcases htag s' with ⟨rfl, heq'⟩ | heq' | heq'
      · rw [heq']
        intro hc
        have := hok.below s hs
        rw [hc] at this
        exact absurd this (UInt64.lt_irrefl _)
      · rw [heq']; exact hok.distinct s s' hne hs
      · rw [heq']; exact hs
    · exact absurd heq hs
  · intro e he s t ht
    rcases List.mem_append.1 he with he | he
    · obtain ⟨h0, hlt', hle⟩ := hok.issued e he s t ht
      refine ⟨h0, UInt64.lt_trans hlt' hlt, ?_⟩
      rcases htag s with ⟨-, heq⟩ | heq | heq
      · rw [heq]; exact Or.inr (UInt64.le_of_lt hlt')
      · rw [heq]; exact hle
      · exact Or.inl heq
    · rw [List.mem_singleton.1 he] at ht
      simp only [HandsOut, Answer.created.injEq, Option.some.injEq] at ht
      obtain ⟨hs, rfl⟩ := ht
      refine ⟨hpos, hlt, ?_⟩
      rcases htag s with ⟨-, heq⟩ | heq | heq
      · rw [heq]; exact Or.inr (UInt64.le_refl _)
      · rw [heq, show s = s₀ from Fin.ext (by omega), hzero]; exact Or.inl rfl
      · exact Or.inl heq

/-- **Tags stay in order** over every run in which the counter does not go
round. -/
theorem tagsOk_run {tr : List (Trans β)} {σ : Adapter β} (h : Run (machine β) tr σ)
    (hb : creates tr < 2 ^ 64 - 0xFAFB) : TagsOk tr σ := by
  induction h with
  | start => exact TagsOk.start
  | @snoc tr σ σ' op o hrun hs ih =>
    have hle := creates_append_le tr [⟨σ, op, o, σ'⟩]
    have hok := ih (by omega)
    have hnat := counter_toNat hrun (by omega)
    have hnat' := counter_toNat (hrun.snoc hs) hb
    by_cases ho : ∃ s : Slot, ∃ t, o = .created s.val (some t)
    · obtain ⟨s, t, rfl⟩ := ho
      have hcr : op.isCreate = true := (handsOut_step hs rfl).1
      rw [creates_snoc, if_pos hcr] at hnat'
      refine hok.step_create hs ?_ ?_
      · rw [UInt64.lt_iff_toNat_lt]; omega
      · intro hc
        rw [hc, UInt64.toNat_zero] at hnat
        omega
    · refine hok.step_other hs (fun s t hc => ho ⟨s, t, hc⟩) ?_
      rw [UInt64.le_iff_toNat_le]
      omega

/-! ## Stale handles -/

/-- No call with the pair `(s, t)` gets past `CHECK_SOCKET_ID`, and none of them
changes anything. -/
structure Rejected (σ : Adapter β) (s : Slot) (t : UInt64) : Prop where
  connect : ∀ ret, σ.libuvSocketConnect s.val t ret = (σ, -1)
  disconnect : ∀ ret, σ.libuvSocketDisconnect s.val t ret = (σ, -1)
  close : ∀ ret, σ.libuvSocketClose s.val t ret = (σ, -1)
  receive : ∀ buf len, σ.libuvSocketReceive s.val t buf len = some (σ, ⟨-1, [], none⟩)
  send : ∀ len ret, σ.libuvSocketSend s.val t len ret = (σ, -1)
  check : σ.libuvSocketCheck s.val t = -1

theorem slotOf_val (s : Slot) : slotOf s.val = some s := by
  have hs : s.val < 8 := s.isLt
  unfold slotOf
  rw [dif_pos (by omega)]
  simp

theorem rejected_of_tag_ne {σ : Adapter β} {s : Slot} {t : UInt64}
    (h : (σ.sockets s).tag ≠ t) : Rejected σ s t := by
  have hc : σ.checkSocketId s.val t = none := by
    cases hs : σ.checkSocketId s.val t with
    | none => rfl
    | some s' =>
      obtain ⟨hid, -, htag⟩ := checkSocketId_eq_some.1 hs
      rw [slotOf_val, Option.some.injEq] at hid
      subst hid
      exact absurd htag h
  constructor
  · intro ret; simp [libuvSocketConnect, hc]
  · intro ret; simp [libuvSocketDisconnect, hc]
  · intro ret; simp [libuvSocketClose, hc]
  · intro buf len; simp [libuvSocketReceive, hc]
  · intro len ret; simp [libuvSocketSend, hc]
  · simp [libuvSocketCheck, slotOf_val, h]

/-- **Stale handles are rejected.**  In every state that a run with fewer than
`2 ^ 64 - 0xFAFB` create calls reaches, the tags in use are pairwise distinct and
below the counter; a tag `t` that was handed out before slot `s` was handed out
again opens no door on `s` any more; and a create fails exactly on a full table
and otherwise changes only the free slot that it returns. -/
theorem stale_handles_rejected {tr : List (Trans β)} {σ : Adapter β} (h : Run (machine β) tr σ)
    (hb : creates tr < 2 ^ 64 - 0xFAFB) :
    (∀ s, (σ.sockets s).tag ≠ 0 → (σ.sockets s).tag < σ.socketTagCounter) ∧
    (∀ s s', s ≠ s' → (σ.sockets s).tag ≠ 0 → (σ.sockets s).tag ≠ (σ.sockets s').tag) ∧
    (∀ pre e post, tr = pre ++ e :: post → ∀ s tnew, HandsOut e s tnew →
      ∀ e' ∈ pre, ∀ s' t, HandsOut e' s' t → Rejected σ s t) ∧
    (∀ isTcp param isIpv6,
      ((σ.libuvCreateSocket isTcp param isIpv6).2.1 = -1 ↔ ∀ s, (σ.sockets s).isFree = false) ∧
      ((σ.libuvCreateSocket isTcp param isIpv6).2.1 ≠ -1 →
        ∃ s : Slot, (σ.libuvCreateSocket isTcp param isIpv6).2.1 = s.val ∧
          (σ.sockets s).isFree = true ∧
          ∀ s' ≠ s, (σ.libuvCreateSocket isTcp param isIpv6).1.sockets s' = σ.sockets s')) := by
  have hok := tagsOk_run h hb
  refine ⟨hok.below, hok.distinct, ?_, fun isTcp param isIpv6 =>
    ⟨libuvCreateSocket_fail_iff σ isTcp param isIpv6, libuvCreateSocket_frame⟩⟩
  rintro pre e post rfl s tnew hnew e' he' s' t ht
  -- the old tag is below the counter from which the new one was taken
  obtain ⟨hpre, hstep⟩ := h.split rfl
  have hbpre : creates pre < 2 ^ 64 - 0xFAFB :=
    lt_of_le_of_lt (creates_append_le pre (e :: post)) hb
  obtain ⟨h0, hlt, -⟩ := (tagsOk_run hpre hbpre).issued e' he' s' t ht
  obtain ⟨-, -, rfl⟩ := handsOut_step hstep hnew
  obtain ⟨-, -, hle⟩ := hok.issued e (by simp) s _ hnew
  refine rejected_of_tag_ne ?_
  rcases hle with hz | hle
  · rw [hz]; exact fun hc => h0 hc.symm
  · intro hc
    rw [hc] at hle
    exact absurd (UInt64.lt_of_lt_of_le hlt hle) (UInt64.lt_irrefl _)

/-- Slot 0 is used, given back, and handed out once more after the other seven. -/
def reuseOps : List (Op UInt8) :=
  [.create true 0 false, .forceClose 0 (-107)] ++ List.replicate 8 (.create true 0 false)

theorem stale_handles_rejected_reuse :
    creates ((machine UInt8).traceOf reuseOps) = 9 ∧
      Rejected ((machine UInt8).stateOf reuseOps) 0 0xFAFB := by
  have hexec : ((machine UInt8).exec (machine UInt8).init reuseOps).isSome = true := by decide
  have hrun := Machine.run_exec hexec
  refine ⟨by decide, ?_⟩
  have h9 : 9 < ((machine UInt8).traceOf reuseOps).length := by decide
  exact (stale_handles_rejected hrun (by decide)).2.2.1
    (((machine UInt8).traceOf reuseOps).take 9) (((machine UInt8).traceOf reuseOps)[9])
    (((machine UInt8).traceOf reuseOps).drop 10) (by simp) 0 0xFB03 rfl
    (((machine UInt8).traceOf reuseOps)[0]) (List.mem_take_iff_getElem.2 ⟨0, by decide, rfl⟩)
    0 0xFAFB rfl

end Libuv
end LuatosPc
