import LuatosPc.Rtos.Task

/-!
# How long a task waits

The loops of `luat_rtos_event_recv` and `luat_rtos_message_recv` count the rounds that
return nothing.  An event that is not waited for takes a round like an empty queue, and
the timeout that stands for waiting forever is compared with `(size_t)(-1)`.

* `countDown`, `Recv.expired` — what a round that returns nothing leaves of the timeout;
  `recvRound_cases` — there are no other rounds.
* `outcomes` — what the rounds of a thread come to; `step_recvs` — only they change its
  receive.
* `waiting_or_over` — how far a receive with timeout `0xFFFFFFFF` has counted;
  `wait_forever_iff` — it times out if and only if `size_t` has 64 bits and there were
  `2 ^ 32` rounds.
* `script` — the rounds of an event receive that meets the given events;
  `Facing.path` — no interleaving with sends changes them.
* `event_found_iff` — an event that is in the queue is found if and only if there are no
  more others before it than the timeout allows.
-/

namespace LuatosPc.Rtos.Task

open LuatosPc.Bytes LuatosPc.Linked

variable {w : PtrSize}

/-! ## The time that is left -/

/-- `timeout` after a round that returns nothing. -/
def countDown (w : PtrSize) (timeout : UInt32) : UInt32 :=
  if timeout.toNat ≠ sizeMax w then timeout - 1 else timeout

/-- The time that is left to a receive. -/
def Recv.timeout : Recv → UInt32
  | event _ timeout => timeout
  | message timeout => timeout

/-- The receive that goes on after a round that returns nothing. -/
def Recv.next (w : PtrSize) : Recv → Recv
  | event wait timeout => .event wait (countDown w timeout)
  | message timeout => .message (countDown w timeout)

/-- What a round that returns nothing comes to. -/
def Recv.expired (w : PtrSize) (r : Recv) : Outcome w :=
  if r.timeout = 0 then .timeout else .again (r.next w)

/-- The outcome is neither an event nor a message. -/
def NoItem (out : Outcome w) : Prop := (∀ e, out ≠ .event e) ∧ ∀ m, out ≠ .message m

theorem Recv.expired_of_zero {r : Recv} (h : r.timeout = 0) : r.expired w = .timeout := if_pos h

theorem Recv.expired_of_ne {r : Recv} (h : r.timeout ≠ 0) : r.expired w = .again (r.next w) :=
  if_neg h

theorem noItem_expired (r : Recv) : NoItem (r.expired w) := by
  unfold Recv.expired
  split <;> exact ⟨by simp, by simp⟩

@[simp] theorem timeout_next (r : Recv) : (r.next w).timeout = countDown w r.timeout := by
  cases r <;> rfl

theorem expire_snd (h : Mem) (item : Option Addr) (timeout : UInt32) (again : UInt32 → Recv) :
    (expire w h item timeout again).2 =
      if timeout = 0 then .timeout else .again (again (countDown w timeout)) := by
  unfold expire countDown
  split
  · rfl
  · split <;> rfl

theorem expire_event (h : Mem) (item : Option Addr) (wait timeout : UInt32) :
    (expire w h item timeout (.event wait)).2 = (Recv.event wait timeout).expired w :=
  expire_snd _ _ _ _

theorem expire_message (h : Mem) (item : Option Addr) (timeout : UInt32) :
    (expire w h item timeout .message).2 = (Recv.message timeout).expired w :=
  expire_snd _ _ _ _

section

variable {any : UInt32} {σ σ' : State} {sent : List (Sent w)} {t : Thread} {item : Option Addr}
  {r : Recv}

/-- **A round** returns an item or counts down. -/
theorem recvRound_cases {h h' : Mem} {popped : Bool} {out : Outcome w}
    (hr : recvRound any w h item r = .ok (h', popped, out)) (hnone : NoItem out) :
    out = r.expired w := by
  cases r with
  | event wait timeout =>
    cases hpop : popPayload w sizeofEvent h queueAddr item with
    | error f =>
      simp [recvRound, eventRecvRound, hpop, bind, Except.bind] at hr
    | ok p =>
      obtain ⟨h₁, _ | bs⟩ := p
      · simp only [recvRound, eventRecvRound, hpop, bind, Except.bind] at hr
        cases hr
        exact expire_event _ _ _ _
      · rw [recvRound_event hpop] at hr
        split at hr
        · cases hr
          exact absurd rfl (hnone.1 _)
        · cases hr
          exact expire_event _ _ _ _
  | message timeout =>
    cases hpop : popPayload w (sizeofMessage w) h queueAddr item with
    | error f =>
      simp [recvRound, messageRecvRound, hpop, bind, Except.bind] at hr
    | ok p =>
      obtain ⟨h₁, _ | bs⟩ := p
      · simp only [recvRound, messageRecvRound, hpop, bind, Except.bind] at hr
        cases hr
        exact expire_message _ _ _
      · simp only [recvRound, messageRecvRound, hpop, bind, Except.bind] at hr
        cases hr
        exact absurd rfl (hnone.2 _)

/-- A round of a receive that finds nothing. -/
theorem Holds.round_idle (h : Holds w σ sent) (ht : σ.recvs t = some (item, r))
    (hnone : item = none ∨ sent = []) :
    ∃ h', recvRound any w σ.heap item r = .ok (h', false, r.expired w) ∧
      Holds w ⟨h', Function.update σ.recvs t ((r.expired w).rest item)⟩ sent := by
  cases r with
  | event wait timeout =>
    have hsize : ∀ n, (Recv.event wait n).size w = (Recv.event wait timeout).size w :=
      fun _ => rfl
    obtain ⟨h', out, heq, hholds, -⟩ := h.expire ht timeout hsize
    have hout : out = (Recv.event wait timeout).expired w := by
      rw [← expire_event σ.heap item, heq]
    refine ⟨h', ?_, hout ▸ hholds⟩
    simp only [recvRound, eventRecvRound, h.pop_none hnone, bind, Except.bind, heq, hout]
    rfl
  | message timeout =>
    have hsize : ∀ n, (Recv.message n).size w = (Recv.message timeout).size w := fun _ => rfl
    obtain ⟨h', out, heq, hholds, -⟩ := h.expire ht timeout hsize
    have hout : out = (Recv.message timeout).expired w := by
      rw [← expire_message σ.heap item, heq]
    refine ⟨h', ?_, hout ▸ hholds⟩
    simp only [recvRound, messageRecvRound, h.pop_none hnone, bind, Except.bind, heq, hout]
    rfl

/-! ## The rounds of a thread -/

/-- What a transition comes to, if it is a round of thread `t`. -/
def roundOf (t : Thread) (e : Trans w) : Option (Outcome w) :=
  match e.act, e.out with
  | .round t', .round _ out => if t' = t then some out else none
  | _, _ => none

/-- What the rounds of thread `t` come to, oldest first. -/
def outcomes (t : Thread) (tr : List (Trans w)) : List (Outcome w) := tr.filterMap (roundOf t)

/-- The action is a call of a receive by thread `t`. -/
def Calls (t : Thread) : Act w → Prop
  | .recv t' _ _ _ _ => t' = t
  | _ => False

theorem outcomes_snoc (t : Thread) (tr : List (Trans w)) (e : Trans w) :
    outcomes t (tr ++ [e]) = outcomes t tr ++ (roundOf t e).toList := by
  cases h : roundOf t e with
  | none => simp [outcomes, h]
  | some out => simp [outcomes, h]

/-- A call of a receive. -/
theorem step_call {addr : Option Addr} {fields : Option Addr × Nat} {junk : Nat → UInt8}
    {o : Answer w} (hs : step any σ (.recv t r addr fields junk) = some (σ', o)) :
    σ'.recvs t = some (addr, r) ∧ o = .nothing := by
  simp only [step, Option.ite_none_right_eq_some, Option.some.injEq, Prod.mk.injEq] at hs
  obtain ⟨-, rfl, rfl⟩ := hs
  exact ⟨Function.update_self _ _ _, rfl⟩

/-- **A receive that is under way** is changed by its own rounds only. -/
theorem step_recvs {a : Act w} {o : Answer w} (hs : step any σ a = some (σ', o))
    (hcall : ¬ Calls t a) :
    (σ'.recvs t = σ.recvs t ∧ roundOf t ⟨σ, a, o, σ'⟩ = none) ∨
      ∃ item r h' popped out, a = .round t ∧ σ.recvs t = some (item, r) ∧
        recvRound any w σ.heap item r = .ok (h', popped, out) ∧ o = .round popped out ∧
        σ' = ⟨h', Function.update σ.recvs t (out.rest item)⟩ := by
  cases a with
  | send s addr junk =>
    refine Or.inl ⟨?_, rfl⟩
    simp only [step] at hs
    split at hs
    · split at hs <;> cases hs <;> rfl
    · cases hs
  | recv t' r addr fields junk =>
    refine Or.inl ⟨?_, rfl⟩
    simp only [step, Option.ite_none_right_eq_some, Option.some.injEq, Prod.mk.injEq] at hs
    obtain ⟨-, rfl, -⟩ := hs
    exact Function.update_of_ne (Ne.symm hcall) _ _
  | round t' =>
    simp only [step] at hs
    split at hs
    · cases hs
    · rename_i item r ht
      split at hs
      · cases hs
        exact Or.inl ⟨rfl, rfl⟩
      · rename_i h' popped out hr
        cases hs
        by_cases htt : t' = t
        · subst htt
          exact Or.inr ⟨item, r, h', popped, out, rfl, ht, hr, rfl, rfl⟩
        · exact Or.inl ⟨Function.update_of_ne (Ne.symm htt) _ _, if_neg htt⟩

/-! ## Waiting forever -/

/-- How far a receive with timeout `0xFFFFFFFF` has counted after the given rounds, none
of which has timed out: not at all if `size_t` has 32 bits. -/
def Counted (w : PtrSize) (rounds : Nat) (timeout : UInt32) : Prop :=
  timeout.toNat + (match w with | .four => 0 | .eight => rounds) = 2 ^ 32 - 1

theorem Counted.succ {rounds : Nat} {timeout : UInt32} (h : Counted w rounds timeout)
    (hne : timeout ≠ 0) : Counted w (rounds + 1) (countDown w timeout) := by
  have hpos : 0 < timeout.toNat := by
    refine Nat.pos_of_ne_zero fun hzero => hne (UInt32.toNat_inj.1 hzero)
  cases w with
  | four =>
    have hmax : timeout.toNat = sizeMax .four := h
    rw [countDown, if_neg (not_not.2 hmax)]
    exact h
  | eight =>
    have hmax : timeout.toNat ≠ sizeMax .eight := by
      have := timeout.toNat_lt
      simp only [sizeMax, PtrSize.bytes]
      omega
    have hone : (timeout - 1).toNat = timeout.toNat - 1 :=
      UInt32.toNat_sub_of_le _ _ (UInt32.le_iff_toNat_le.2 hpos)
    have hsum : timeout.toNat + rounds = 2 ^ 32 - 1 := h
    rw [countDown, if_pos hmax]
    show (timeout - 1).toNat + (rounds + 1) = 2 ^ 32 - 1
    omega

/-- The count comes to its end only with 64 bits, and after `2 ^ 32 - 1` rounds. -/
theorem Counted.of_zero {rounds : Nat} (h : Counted w rounds 0) :
    w = .eight ∧ rounds + 1 = 2 ^ 32 := by
  cases w with
  | four =>
    have hsum : 0 + 0 = 2 ^ 32 - 1 := h
    exact absurd hsum (by decide)
  | eight =>
    have hsum : 0 + rounds = 2 ^ 32 - 1 := h
    exact ⟨rfl, by omega⟩

/-- **A receive with timeout `0xFFFFFFFF`** whose rounds return no item is still under
way, or it has timed out in round `2 ^ 32`, which happens only if `size_t` has 64 bits. -/
theorem waiting_or_over {tr : List (Trans w)} (h : Path (machine any w) σ tr σ')
    (ht : σ.recvs t = some (item, r)) (hforever : r.timeout = 0xFFFFFFFF)
    (hcalls : ∀ e ∈ tr, ¬ Calls t e.act) (hnone : ∀ out ∈ outcomes t tr, NoItem out) :
    (.timeout ∉ outcomes t tr ∧
      ∃ r', σ'.recvs t = some (item, r') ∧ Counted w (outcomes t tr).length r'.timeout) ∨
    (.timeout ∈ outcomes t tr ∧ σ'.recvs t = none ∧ w = .eight ∧
      (outcomes t tr).length = 2 ^ 32) := by
  induction h with
  | nil =>
    refine Or.inl ⟨by simp [outcomes], r, ht, ?_⟩
    rw [hforever]
    cases w <;> rfl
  | @snoc tr τ τ' a o _ hs ih =>
    have hcall : ¬ Calls t a := hcalls ⟨τ, a, o, τ'⟩ (by simp)
    have ih := ih (fun e he => hcalls e (List.mem_append_left _ he)) fun out hout =>
      hnone out (by rw [outcomes_snoc]; exact List.mem_append_left _ hout)
    rcases step_recvs hs hcall with ⟨hsame, hround⟩ | ⟨item', r', h', popped, out, rfl, hr', hr, rfl, rfl⟩
    · rw [outcomes_snoc, hround, Option.toList_none, List.append_nil, hsame]
      exact ih
    · have hround : roundOf t (⟨τ, .round t, .round popped out,
          ⟨h', Function.update τ.recvs t (out.rest item')⟩⟩ : Trans w) = some out := if_pos rfl
      rw [outcomes_snoc, hround] at hnone ⊢
      rcases ih with ⟨hmem, r₁, hr₁, hcounted⟩ | ⟨-, hover, -⟩
      · obtain ⟨rfl, rfl⟩ : item' = item ∧ r' = r₁ := by
          simpa using hr'.symm.trans hr₁
        obtain rfl := recvRound_cases hr (hnone _ (by simp))
        unfold Recv.expired
        split
        · -- the count is at an end
          rename_i hzero
          rw [hzero] at hcounted
          obtain ⟨hw, hlen⟩ := hcounted.of_zero
          refine Or.inr ⟨by simp, Function.update_self _ _ _, hw, ?_⟩
          rw [Option.toList_some, List.length_append, List.length_singleton, hlen]
        · rename_i hne
          refine Or.inl ⟨by simp [hmem], r'.next w, Function.update_self _ _ _, ?_⟩
          rw [timeout_next]
          have hsucc := hcounted.succ hne
          simpa using hsucc
      · exact absurd (hr'.symm.trans hover) (by simp)

end

/-- **Waiting forever**: a receive with timeout `0xFFFFFFFF` whose rounds return no item
does not time out if and only if `size_t` has 32 bits, or there were fewer than `2 ^ 32`
rounds. -/
theorem wait_forever_iff (any : UInt32) (w : PtrSize) {σ σ₁ σ₂ : State} {t : Thread} {r : Recv}
    {addr : Option Addr} {fields : Option Addr × Nat} {junk : Nat → UInt8} {o : Answer w}
    (hcall : step any σ (.recv t r addr fields junk) = some (σ₁, o))
    (hforever : r.timeout = 0xFFFFFFFF) {tr : List (Trans w)}
    (h : Path (machine any w) σ₁ tr σ₂) (hcalls : ∀ e ∈ tr, ¬ Calls t e.act)
    (hnone : ∀ out ∈ outcomes t tr, NoItem out) :
    .timeout ∉ outcomes t tr ↔ w = .four ∨ (outcomes t tr).length < 2 ^ 32 := by
  obtain ⟨ht, -⟩ := step_call hcall
  rcases waiting_or_over h ht hforever hcalls hnone with
    ⟨hmem, r', -, hcounted⟩ | ⟨hmem, -, hw, hlen⟩
  · refine iff_of_true hmem ?_
    cases w with
    | four => exact Or.inl rfl
    | eight =>
      have hsum : r'.timeout.toNat + (outcomes t tr).length = 2 ^ 32 - 1 := hcounted
      exact Or.inr (by omega)
  · refine iff_of_false (not_not.2 hmem) ?_
    subst hw
    rw [hlen]
    simp

/-- Rounds of a receive on an empty queue, as many as there can be. -/
theorem exists_idle_rounds {any : UInt32} {σ : State} {t : Thread} {item : Option Addr} {r : Recv}
    {sent : List (Sent w)} (h : Holds w σ sent) (ht : σ.recvs t = some (item, r))
    (hnone : item = none ∨ sent = []) (n : Nat) :
    ∃ tr σ', Path (machine any w) σ tr σ' ∧ (∀ e ∈ tr, e.act = .round t) ∧ Holds w σ' sent ∧
      (∀ out ∈ outcomes t tr, NoItem out) ∧
      ((outcomes t tr).length = n ∧ (∃ r', σ'.recvs t = some (item, r')) ∨
        .timeout ∈ outcomes t tr ∧ (outcomes t tr).length ≤ n) := by
  induction n with
  | zero =>
    exact ⟨[], σ, .nil, by simp, h, by simp [outcomes], Or.inl ⟨rfl, r, ht⟩⟩
  | succ n ih =>
    obtain ⟨tr, σ', hpath, hacts, hholds, hitems, ⟨hlen, r', hr'⟩ | ⟨hmem, hle⟩⟩ := ih
    · obtain ⟨h', hround, hholds'⟩ : ∃ h', recvRound any w σ'.heap item r' =
          .ok (h', false, r'.expired w) ∧ Holds w ⟨h', Function.update σ'.recvs t
            ((r'.expired w).rest item)⟩ sent := hholds.round_idle hr' hnone
      have hs : (machine any w).step σ' (.round t) = some (⟨h', Function.update σ'.recvs t
          ((r'.expired w).rest item)⟩, .round false (r'.expired w)) := by
        simp only [machine, step, hr', hround]
      have hout : roundOf t (⟨σ', .round t, .round false (r'.expired w), ⟨h',
          Function.update σ'.recvs t ((r'.expired w).rest item)⟩⟩ : Trans w) =
            some (r'.expired w) := if_pos rfl
      refine ⟨_, _, hpath.snoc hs, ?_, hholds', ?_, ?_⟩
      · rw [List.forall_mem_append, List.forall_mem_singleton]
        exact ⟨hacts, rfl⟩
      · rw [outcomes_snoc, hout, Option.toList_some, List.forall_mem_append,
          List.forall_mem_singleton]
        exact ⟨hitems, noItem_expired r'⟩
      · rw [outcomes_snoc, hout, Option.toList_some]
        by_cases hzero : r'.timeout = 0
        · exact Or.inr ⟨by simp [Recv.expired_of_zero hzero], by simp [hlen]⟩
        · refine Or.inl ⟨by simp [hlen], r'.next w, ?_⟩
          rw [Recv.expired_of_ne hzero]
          exact Function.update_self _ _ _
    · exact ⟨tr, σ', hpath, hacts, hholds, hitems, Or.inr ⟨hmem, by omega⟩⟩

/-- Two rounds of an event receive on an empty queue. -/
def waitTwice : List (Act .four) :=
  [.recv 0 (.event 1 0xFFFFFFFF) (some 1) (none, 0) fun _ => 0, .round 0, .round 0]

theorem wait_forever_twice :
    outcomes 0 (((machine 0 .four).traceOf waitTwice).drop 1) =
        [.again (.event 1 0xFFFFFFFF), .again (.event 1 0xFFFFFFFF)] ∧
      .timeout ∉ outcomes 0 (((machine 0 .four).traceOf waitTwice).drop 1) := by
  have hrun : Run (machine 0 .four) ((machine 0 .four).traceOf waitTwice)
      ((machine 0 .four).stateOf waitTwice) := Machine.run_exec (by decide +kernel)
  have h0 : 0 < ((machine 0 .four).traceOf waitTwice).length := by decide +kernel
  have hsplit := Machine.traceOf_split h0
  have hout : outcomes 0 (((machine 0 .four).traceOf waitTwice).drop 1) =
      [.again (.event 1 0xFFFFFFFF), .again (.event 1 0xFFFFFFFF)] := by decide +kernel
  have hcall : step 0 ((machine 0 .four).traceOf waitTwice)[0].src
      (.recv 0 (.event 1 0xFFFFFFFF) (some 1) (none, 0) fun _ => 0) =
        some (((machine 0 .four).traceOf waitTwice)[0].dst,
          ((machine 0 .four).traceOf waitTwice)[0].out) := (hrun.split hsplit).2
  refine ⟨hout, (wait_forever_iff 0 .four hcall rfl (hrun.path hsplit) ?_ ?_).2 (Or.inl rfl)⟩
  · intro e he
    have hact := Machine.act_mem_of_mem_drop he
    simp only [waitTwice, List.drop_succ_cons, List.drop_zero, List.mem_cons, List.not_mem_nil,
      or_false, or_self] at hact
    rw [hact]
    exact id
  · rw [hout]
    intro out hmem
    simp only [List.mem_cons, List.not_mem_nil, or_false, or_self] at hmem
    rw [hmem]
    exact ⟨by simp, by simp⟩

/-- A receive with timeout `0xFFFFFFFF` is called and makes rounds until it times out. -/
def TimesOut (w : PtrSize) (r : Recv) : Prop :=
  ∃ σ₁ tr σ₂, step 0 (.start w) (.recv 0 r (some 1) (none, 0) fun _ => 0) =
      some (σ₁, (.nothing : Answer w)) ∧
    Path (machine 0 w) σ₁ tr σ₂ ∧ (∀ e ∈ tr, e.act = .round 0) ∧ .timeout ∈ outcomes 0 tr

/-- The state in which a receive on an empty queue begins. -/
def State.waiting (w : PtrSize) (r : Recv) : State :=
  ⟨(State.start w).heap.store 1 (newBuffer w (r.size w) (none, 0) fun _ => 0),
    Function.update (State.start w).recvs 0 (some (some 1, r))⟩

theorem timesOut_of_forever {r : Recv} (hforever : r.timeout = 0xFFFFFFFF) :
    TimesOut .eight r := by
  have hempty : (State.start .eight).heap.load 1 = none := by decide +kernel
  have hholds : Holds .eight (.waiting .eight r) [] :=
    (holds_start .eight).begin (none, 0) (fun _ => 0) hempty
  have hrecv : (State.waiting .eight r).recvs 0 = some (some 1, r) := by simp [State.waiting]
  obtain ⟨tr, σ₂, hpath, hacts, -, hitems, hend⟩ : ∃ tr σ₂,
      Path (machine 0 .eight) (.waiting .eight r) tr σ₂ ∧ (∀ e ∈ tr, e.act = .round 0) ∧
        Holds .eight σ₂ [] ∧ (∀ out ∈ outcomes 0 tr, NoItem out) ∧
        ((outcomes 0 tr).length = 2 ^ 32 ∧ (∃ r', σ₂.recvs 0 = some (some 1, r')) ∨
          .timeout ∈ outcomes 0 tr ∧ (outcomes 0 tr).length ≤ 2 ^ 32) :=
    exists_idle_rounds hholds hrecv (Or.inr rfl) (2 ^ 32)
  refine ⟨.waiting .eight r, tr, σ₂, ?_, hpath, hacts, ?_⟩
  · have hfree : (State.start .eight).recvs 0 = none ∧
        Unused (State.start .eight).heap (some 1) := ⟨rfl, by decide +kernel⟩
    simp only [step]
    rw [if_pos hfree]
    rfl
  · have hcalls : ∀ e ∈ tr, ¬ Calls 0 e.act := by
      intro e he
      rw [hacts e he]
      exact id
    rcases hend with ⟨hlen, -⟩ | ⟨hmem, -⟩
    · -- a receive that still waits has made fewer rounds
      rcases waiting_or_over hpath hrecv hforever hcalls hitems with
        ⟨-, r', -, hcounted⟩ | ⟨hmem, -⟩
      · have hsum : r'.timeout.toNat + (outcomes 0 tr).length = 2 ^ 32 - 1 := hcounted
        omega
      · exact hmem
    · exact hmem

/-- With a `size_t` of 64 bits both receives time out on an empty queue. -/
theorem wait_forever_ends :
    TimesOut .eight (.event 1 0xFFFFFFFF) ∧ TimesOut .eight (.message 0xFFFFFFFF) :=
  ⟨timesOut_of_forever rfl, timesOut_of_forever rfl⟩

/-! ## Finding an event -/

/-- `wait_event_id` matches the event. -/
def Matches (any wait : UInt32) (e : Event) : Prop := wait = any ∨ e.id = wait

instance (any wait : UInt32) (e : Event) : Decidable (Matches any wait e) :=
  inferInstanceAs (Decidable (wait = any ∨ e.id = wait))

/-- The events in front of the first one that matches. -/
def ahead (any wait : UInt32) (events : List Event) : Nat :=
  events.findIdx fun e => decide (Matches any wait e)

/-- The first event that matches. -/
def firstMatch (any wait : UInt32) (events : List Event) : Option Event :=
  events.find? fun e => decide (Matches any wait e)

/-- A timeout that allows for so many rounds that return nothing. -/
def Allows (w : PtrSize) (timeout : UInt32) (rounds : Nat) : Prop :=
  rounds ≤ timeout.toNat ∨ timeout.toNat = sizeMax w

instance (w : PtrSize) (timeout : UInt32) (rounds : Nat) : Decidable (Allows w timeout rounds) :=
  inferInstanceAs (Decidable (rounds ≤ timeout.toNat ∨ timeout.toNat = sizeMax w))

theorem allows_zero (timeout : UInt32) : Allows w timeout 0 := Or.inl (Nat.zero_le _)

theorem allows_succ_iff (timeout : UInt32) (rounds : Nat) :
    Allows w timeout (rounds + 1) ↔ timeout ≠ 0 ∧ Allows w (countDown w timeout) rounds := by
  have hlt := timeout.toNat_lt
  have hmax : 2 ^ 32 - 1 ≤ sizeMax w := by cases w <;> decide
  have hne : timeout ≠ 0 ↔ 1 ≤ timeout.toNat := by
    rw [Nat.one_le_iff_ne_zero, Ne, Ne, ← UInt32.toNat_inj]
    rfl
  unfold Allows countDown
  rw [hne]
  split
  · rename_i hcounts
    constructor
    · rintro (hle | hforever)
      · have hone : (timeout - 1).toNat = timeout.toNat - 1 :=
          UInt32.toNat_sub_of_le _ _ (UInt32.le_iff_toNat_le.2 (show 1 ≤ timeout.toNat by omega))
        exact ⟨by omega, Or.inl (by omega)⟩
      · exact absurd hforever hcounts
    · rintro ⟨hpos, hle⟩
      have hone : (timeout - 1).toNat = timeout.toNat - 1 :=
        UInt32.toNat_sub_of_le _ _ (UInt32.le_iff_toNat_le.2 hpos)
      rw [hone] at hle
      exact Or.inl (by omega)
  · rename_i hforever
    rw [not_not] at hforever
    exact iff_of_true (Or.inr hforever) ⟨by omega, Or.inr hforever⟩

/-- The rounds of an event receive that meets the given events, up to the first one that
matches. -/
def script (any : UInt32) (w : PtrSize) (wait : UInt32) : List Event → UInt32 → List (Outcome w)
  | [], _ => []
  | e :: events, timeout =>
    if Matches any wait e then [.event e]
    else if timeout = 0 then [.timeout]
    else .again (.event wait (countDown w timeout)) ::
      script any w wait events (countDown w timeout)

/-- How the rounds end: with the first event that matches, or too early. -/
theorem script_eq {any wait : UInt32} {events : List Event} {e : Event}
    (hfirst : firstMatch any wait events = some e) (timeout : UInt32) :
    ∃ agains : List Recv, script any w wait events timeout = agains.map .again ++
      [if Allows w timeout (ahead any wait events) then .event e else .timeout] := by
  induction events generalizing timeout with
  | nil => cases hfirst
  | cons e' events ih =>
    rw [script]
    split
    · rename_i hmatch
      obtain rfl : e' = e := by simpa [firstMatch, hmatch] using hfirst
      have hahead : ahead any wait (e' :: events) = 0 := by
        simp [ahead, List.findIdx_cons, hmatch]
      exact ⟨[], by rw [hahead, if_pos (allows_zero timeout)]; rfl⟩
    · rename_i hmatch
      have hfirst' : firstMatch any wait events = some e := by
        simpa [firstMatch, hmatch] using hfirst
      have hahead : ahead any wait (e' :: events) = ahead any wait events + 1 := by
        simp [ahead, List.findIdx_cons, hmatch]
      rw [hahead]
      split
      · rename_i hzero
        have hnot : ¬ Allows w timeout (ahead any wait events + 1) := by
          rw [allows_succ_iff]
          exact fun h => h.1 hzero
        exact ⟨[], by rw [if_neg hnot]; rfl⟩
      · rename_i hne
        obtain ⟨agains, hscript⟩ := ih hfirst' (countDown w timeout)
        refine ⟨.event wait (countDown w timeout) :: agains, ?_⟩
        rw [hscript, List.map_cons, List.cons_append]
        simp only [allows_succ_iff, hne, ne_eq, not_false_eq_true, true_and]

section

variable {any : UInt32} {σ σ' : State} {sent : List (Sent w)} {t : Thread} {a : Addr}
  {wait timeout : UInt32}

/-- A round of an event receive that finds an event. -/
theorem Holds.round_event {e : Event} (h : Holds w σ (.event e :: sent))
    (ht : σ.recvs t = some (some a, .event wait timeout)) (out : Outcome w)
    (hout : out = if Matches any wait e then .event e else (Recv.event wait timeout).expired w) :
    ∃ h', recvRound any w σ.heap (some a) (.event wait timeout) = .ok (h', true, out) ∧
      Holds w ⟨h', Function.update σ.recvs t (out.rest (some a))⟩ sent := by
  obtain ⟨h', bs, hpop, hholds, hlen, hbytes⟩ := h.pop_some ht (length_eventBytes e).le
  have hbs : Event.ofBytes bs = e := by
    rw [Sent.bytes, length_eventBytes, ← (show bs.length = sizeofEvent from hlen),
      List.take_length] at hbytes
    rw [hbytes, event_ofBytes_bytes]
  rw [recvRound_event hpop, hbs, hout]
  by_cases hmatch : Matches any wait e
  · have hwait : wait = any ∨ e.id = wait := hmatch
    rw [if_pos hwait, if_pos hmatch]
    exact ⟨_, rfl, hholds.finish ht⟩
  · have hwait : ¬ (wait = any ∨ e.id = wait) := hmatch
    have hsize : ∀ n, (Recv.event wait n).size w = (Recv.event wait timeout).size w :=
      fun _ => rfl
    obtain ⟨h'', out', heq, hholds', -⟩ := hholds.expire ht timeout hsize
    have hout' : out' = (Recv.event wait timeout).expired w := by
      rw [← expire_event h' (some a), heq]
    rw [if_neg hwait, if_neg hmatch, heq, hout']
    exact ⟨h'', rfl, hout' ▸ hholds'⟩

/-- Nobody receives but thread `t`. -/
def Alone (t : Thread) : Act w → Prop
  | .send _ _ _ => True
  | .recv _ _ _ _ _ => False
  | .round t' => t' = t

theorem Alone.not_calls {b : Act w} (h : Alone t b) : ¬ Calls t b := by
  cases b with
  | send s addr junk => exact id
  | recv t' r addr fields junk => exact absurd h id
  | round t' => exact id

/-- An event receive that has the given events in front of it. -/
structure Facing (any : UInt32) (w : PtrSize) (wait : UInt32) (t : Thread) (a : Addr)
    (events : List Event) (timeout : UInt32) (σ : State) : Prop where
  recv : σ.recvs t = some (some a, .event wait timeout)
  holds : ∃ rest, Holds w σ (events.map .event ++ rest)
  found : firstMatch any wait events ≠ none

/-- **One round** takes the first of the events, and goes on with the others or is the last
one. -/
theorem Facing.after_round {events : List Event} (h : Facing any w wait t a events timeout σ)
    {o : Answer w} (hs : step any σ (.round t) = some (σ', o)) :
    ∃ out, o = .round true out ∧ ∃ rest, roundOf t ⟨σ, .round t, o, σ'⟩ = some out ∧
      script any w wait events timeout = out :: rest ∧
      (rest = [] ∧ σ'.recvs t = none ∨ ∃ events' timeout',
        rest = script any w wait events' timeout' ∧
          Facing any w wait t a events' timeout' σ') := by
  obtain ⟨hrecv, ⟨rest, hholds⟩, hfound⟩ := h
  cases events with
  | nil => exact absurd rfl hfound
  | cons e events =>
    obtain ⟨out, hout⟩ : ∃ out : Outcome w, out =
      if Matches any wait e then .event e else (Recv.event wait timeout).expired w := ⟨_, rfl⟩
    obtain ⟨h', hround, hholds'⟩ := hholds.round_event hrecv out hout
    rw [step, hrecv] at hs
    simp only [hround] at hs
    cases hs
    refine ⟨out, rfl, ?_⟩
    have hroundOf : roundOf t (⟨σ, .round t, .round true out,
        ⟨h', Function.update σ.recvs t (out.rest (some a))⟩⟩ : Trans w) = some out := if_pos rfl
    rw [hroundOf, script]
    by_cases hmatch : Matches any wait e
    · rw [if_pos hmatch] at hout
      subst hout
      exact ⟨[], rfl, if_pos hmatch, Or.inl ⟨rfl, Function.update_self _ _ _⟩⟩
    · rw [if_neg hmatch] at hout
      by_cases hzero : timeout = 0
      · obtain rfl : out = .timeout := hout.trans (Recv.expired_of_zero hzero)
        refine ⟨[], rfl, ?_, Or.inl ⟨rfl, Function.update_self _ _ _⟩⟩
        rw [if_neg hmatch, if_pos hzero]
      · obtain rfl : out = .again (.event wait (countDown w timeout)) :=
          hout.trans (Recv.expired_of_ne hzero)
        refine ⟨_, rfl, by rw [if_neg hmatch, if_neg hzero], Or.inr ⟨events, _, rfl, ?_⟩⟩
        refine ⟨Function.update_self _ _ _, ⟨rest, hholds'⟩, ?_⟩
        simpa [firstMatch, hmatch] using hfound

/-- **One step of an event receive** that nobody disturbs: a round goes on with the rest
of the events or is the last one; a send leaves them as they are. -/
theorem Facing.after_step {events : List Event} (h : Facing any w wait t a events timeout σ)
    {b : Act w} {o : Answer w} (hs : step any σ b = some (σ', o)) (halone : Alone t b) :
    (∀ f, b = .round t → o ≠ .fault f) ∧
      ((roundOf t ⟨σ, b, o, σ'⟩ = none ∧ Facing any w wait t a events timeout σ') ∨
        ∃ out rest, roundOf t ⟨σ, b, o, σ'⟩ = some out ∧
          script any w wait events timeout = out :: rest ∧
          (rest = [] ∧ σ'.recvs t = none ∨ ∃ events' timeout',
            rest = script any w wait events' timeout' ∧
              Facing any w wait t a events' timeout' σ')) := by
  obtain ⟨hrecv, ⟨rest, hholds⟩, hfound⟩ := h
  cases b with
  | send s addr junk =>
    refine ⟨by simp, Or.inl ⟨rfl, ?_⟩⟩
    rw [step] at hs
    split at hs
    · rename_i hunused
      cases addr with
      | none => cases s <;> cases hs <;> exact ⟨hrecv, ⟨rest, hholds⟩, hfound⟩
      | some a' =>
        obtain ⟨h', hsend, hholds'⟩ := hholds.send s junk (hunused a' rfl)
        rw [hsend] at hs
        cases hs
        exact ⟨hrecv, ⟨rest ++ [s], by rwa [← List.append_assoc]⟩, hfound⟩
    · cases hs
  | recv t' r addr fields junk => exact absurd halone id
  | round t' =>
    obtain rfl : t' = t := halone
    have hfacing : Facing any w wait t' a events timeout σ := ⟨hrecv, ⟨rest, hholds⟩, hfound⟩
    obtain ⟨out, rfl, next, hround, hscript, hnext⟩ := hfacing.after_round hs
    exact ⟨by simp, Or.inr ⟨out, next, hround, hscript, hnext⟩⟩

/-- **The rounds of an event receive** that nobody disturbs, whatever is sent meanwhile. -/
theorem Facing.path {events : List Event} {tr : List (Trans w)}
    (h : Facing any w wait t a events timeout σ) (hpath : Path (machine any w) σ tr σ')
    (halone : ∀ e ∈ tr, Alone t e.act) :
    (∀ e ∈ tr, ∀ f, e.act = .round t → e.out ≠ .fault f) ∧
      ((outcomes t tr = script any w wait events timeout ∧ σ'.recvs t = none) ∨
        ∃ events' timeout', script any w wait events timeout =
            outcomes t tr ++ script any w wait events' timeout' ∧
          Facing any w wait t a events' timeout' σ') := by
  induction hpath with
  | nil => exact ⟨by simp, Or.inr ⟨events, timeout, rfl, h⟩⟩
  | @snoc tr τ τ' b o _ hs ih =>
    obtain ⟨hok, hpre⟩ := ih fun e he => halone e (List.mem_append_left _ he)
    have hlast : Alone t b := halone ⟨τ, b, o, τ'⟩ (by simp)
    rw [List.forall_mem_append, List.forall_mem_singleton, outcomes_snoc]
    rcases hpre with ⟨hdone, hnone⟩ | ⟨events', timeout', hscript, hfacing⟩
    · -- the receive has returned
      have hidle : roundOf t (⟨τ, b, o, τ'⟩ : Trans w) = none ∧ τ'.recvs t = none ∧
          b ≠ .round t := by
        rcases step_recvs hs hlast.not_calls with ⟨hsame, hround⟩ | ⟨_, _, _, _, _, rfl, hr, -⟩
        · refine ⟨hround, hsame.trans hnone, ?_⟩
          rintro rfl
          have hs' : step any τ (.round t) = some (τ', o) := hs
          simp [step, hnone] at hs'
        · exact absurd (hr.symm.trans hnone) (by simp)
      refine ⟨⟨hok, fun f hact => absurd hact hidle.2.2⟩, Or.inl ?_⟩
      rw [hidle.1, Option.toList_none, List.append_nil]
      exact ⟨hdone, hidle.2.1⟩
    · obtain ⟨hnofault, hcases⟩ := hfacing.after_step hs hlast
      refine ⟨⟨hok, hnofault⟩, ?_⟩
      rcases hcases with ⟨hround, hfacing'⟩ | ⟨out, rest, hround, hrest, hnext⟩
      · rw [hround, Option.toList_none, List.append_nil]
        exact Or.inr ⟨events', timeout', hscript, hfacing'⟩
      · rw [hrest] at hscript
        rw [hround, Option.toList_some]
        rcases hnext with ⟨rfl, hnone⟩ | ⟨events'', timeout'', rfl, hfacing'⟩
        · exact Or.inl ⟨hscript.symm, hnone⟩
        · refine Or.inr ⟨events'', timeout'', ?_, hfacing'⟩
          rw [hscript, List.append_assoc, List.singleton_append]

/-- The next round of an event receive is possible. -/
theorem Facing.exists_round {events : List Event} (h : Facing any w wait t a events timeout σ) :
    ∃ out σ', (machine any w).step σ (.round t) = some (σ', .round true out) := by
  obtain ⟨hrecv, ⟨rest, hholds⟩, hfound⟩ := h
  cases events with
  | nil => exact absurd rfl hfound
  | cons e events =>
    obtain ⟨out, hout⟩ : ∃ out : Outcome w, out =
      if Matches any wait e then .event e else (Recv.event wait timeout).expired w := ⟨_, rfl⟩
    obtain ⟨h', hround, -⟩ := hholds.round_event hrecv out hout
    refine ⟨out, ⟨h', Function.update σ.recvs t (out.rest (some a))⟩, ?_⟩
    simp only [machine, step, hrecv, hround]

/-- The rounds can be made one after the other, up to the last one. -/
theorem Facing.exists_path {events : List Event} (h : Facing any w wait t a events timeout σ) :
    ∃ tr σ', Path (machine any w) σ tr σ' ∧ (∀ e ∈ tr, Alone t e.act) ∧
      outcomes t tr = script any w wait events timeout := by
  have hrounds : ∀ n, ∃ tr σ', Path (machine any w) σ tr σ' ∧ (∀ e ∈ tr, Alone t e.act) ∧
      (outcomes t tr = script any w wait events timeout ∨ n ≤ (outcomes t tr).length) := by
    intro n
    induction n with
    | zero => exact ⟨[], σ, .nil, by simp, Or.inr (Nat.zero_le _)⟩
    | succ n ih =>
      obtain ⟨tr, σ', hpath, halone, hdone | hlen⟩ := ih
      · exact ⟨tr, σ', hpath, halone, Or.inl hdone⟩
      · rcases (h.path hpath halone).2 with ⟨hdone, -⟩ | ⟨events', timeout', -, hfacing⟩
        · exact ⟨tr, σ', hpath, halone, Or.inl hdone⟩
        · obtain ⟨out, σ'', hs⟩ := hfacing.exists_round
          refine ⟨_, σ'', hpath.snoc hs, ?_, Or.inr ?_⟩
          · rw [List.forall_mem_append, List.forall_mem_singleton]
            exact ⟨halone, rfl⟩
          · have hround : roundOf t (⟨σ', .round t, .round true out, σ''⟩ : Trans w) = some out :=
              if_pos rfl
            rw [outcomes_snoc, hround, Option.toList_some, List.length_append,
              List.length_singleton]
            omega
  obtain ⟨tr, σ', hpath, halone, hdone | hlen⟩ := hrounds (script any w wait events timeout).length
  · exact ⟨tr, σ', hpath, halone, hdone⟩
  · refine ⟨tr, σ', hpath, halone, ?_⟩
    rcases (h.path hpath halone).2 with ⟨hdone, -⟩ | ⟨events', timeout', hscript, -⟩
    · exact hdone
    · have hbegins : outcomes t tr <+: script any w wait events timeout := ⟨_, hscript.symm⟩
      exact hbegins.eq_of_length_le hlen

/-- A call of a receive leaves what the task holds. -/
theorem Holds.call (h : Holds w σ sent) {r : Recv} {addr : Option Addr}
    {fields : Option Addr × Nat} {junk : Nat → UInt8} {o : Answer w}
    (hs : step any σ (.recv t r addr fields junk) = some (σ', o)) : Holds w σ' sent := by
  obtain ⟨-, rfl⟩ := step_call hs
  obtain ⟨gone, rest, heq, hlen, hholds⟩ := (step_refines h hs (by simp)).holds
  obtain rfl : gone = [] := List.length_eq_zero_iff.1 hlen
  have hrest : sent ++ [] = [] ++ rest := heq
  rw [List.append_nil, List.nil_append] at hrest
  rwa [hrest]

end

/-- **Thread `t` gets the event `e`**: its rounds go on a number of times, and then one of
them returns `e`, whatever is sent meanwhile, as long as nobody else receives.  Until then
there is always a next round. -/
def Finds (any : UInt32) (w : PtrSize) (t : Thread) (σ : State) (e : Event) : Prop :=
  ∃ agains : List Recv, ∀ tr σ', Path (machine any w) σ tr σ' → (∀ x ∈ tr, Alone t x.act) →
    (∀ x ∈ tr, ∀ f, x.act = .round t → x.out ≠ .fault f) ∧
      outcomes t tr <+: agains.map .again ++ [.event e] ∧
      (outcomes t tr ≠ agains.map .again ++ [.event e] →
        ∃ popped out σ'', (machine any w).step σ' (.round t) = some (σ'', .round popped out))

/-- **A queued event is found** by a receive that matches it if and only if the receive
has got its item and its timeout allows for the events that are ahead. -/
theorem event_found_iff (any : UInt32) (w : PtrSize) {σ σ₁ : State} {t : Thread}
    {events : List Event} {e : Event} {wait timeout : UInt32} {addr : Option Addr}
    {fields : Option Addr × Nat} {junk : Nat → UInt8} {o : Answer w}
    (hσ : Holds w σ (events.map .event)) (hfirst : firstMatch any wait events = some e)
    (hcall : step any σ (.recv t (.event wait timeout) addr fields junk) = some (σ₁, o)) :
    Finds any w t σ₁ e ↔ addr ≠ none ∧ Allows w timeout (ahead any wait events) := by
  have hholds : Holds w σ₁ (events.map .event) := hσ.call hcall
  obtain ⟨hrecv, -⟩ := step_call hcall
  have htimeout : ∀ agains : List Recv,
      (.timeout : Outcome w) ∉ agains.map .again ++ [.event e] := by simp
  cases addr with
  | none =>
    -- without an item no round returns anything
    refine iff_of_false ?_ (by simp)
    rintro ⟨agains, hfinds⟩
    obtain ⟨tr, σ', hpath, hacts, -, hitems, hend⟩ :=
      exists_idle_rounds hholds hrecv (Or.inl rfl) (agains.length + 1)
    have halone : ∀ x ∈ tr, Alone t x.act := by
      intro x hx
      rw [hacts x hx]
      rfl
    obtain ⟨-, hbegins, -⟩ := hfinds tr σ' hpath halone
    rcases hend with ⟨hlen, -⟩ | ⟨hmem, -⟩
    · have hall := hbegins.eq_of_length (by simp [hlen])
      exact (hitems (.event e) (by simp [hall])).1 e rfl
    · exact htimeout agains (hbegins.subset hmem)
  | some a =>
    have hfacing : Facing any w wait t a events timeout σ₁ :=
      ⟨hrecv, ⟨[], by rwa [List.append_nil]⟩, by simp [hfirst]⟩
    obtain ⟨agains, hscript⟩ := script_eq (w := w) hfirst timeout
    simp only [ne_eq, reduceCtorEq, not_false_eq_true, true_and]
    constructor
    · rintro ⟨agains', hfinds⟩
      by_contra hnot
      rw [if_neg hnot] at hscript
      obtain ⟨tr, σ', hpath, halone, hout⟩ := hfacing.exists_path
      obtain ⟨-, hbegins, -⟩ := hfinds tr σ' hpath halone
      rw [hout, hscript] at hbegins
      exact htimeout agains' (hbegins.subset (by simp))
    · intro hallows
      rw [if_pos hallows] at hscript
      refine ⟨agains, fun tr σ' hpath halone => ?_⟩
      obtain ⟨hok, hdone | ⟨events', timeout', hpre, hfacing'⟩⟩ := hfacing.path hpath halone
      · rw [← hscript]
        exact ⟨hok, hdone.1 ▸ List.prefix_rfl, fun hne => absurd hdone.1 hne⟩
      · rw [← hscript]
        exact ⟨hok, ⟨_, hpre.symm⟩, fun _ => ⟨true, hfacing'.exists_round⟩⟩

/-- An event with id 2, and behind it one with id 1. -/
def queued : List Event := [⟨2, 0, 0, 0⟩, ⟨1, 3, 4, 5⟩]

/-- They are sent. -/
def queueOps : List (Act .four) :=
  [.send (.event ⟨2, 0, 0, 0⟩) (some 1) fun _ => 0, .send (.event ⟨1, 3, 4, 5⟩) (some 2) fun _ => 0]

/-- An event with id 1 is waited for. -/
def waitCall (timeout : UInt32) : Act .four :=
  .recv 0 (.event 1 timeout) (some 3) (none, 0) fun _ => 0

theorem holds_queueOps : Holds .four ((machine 0 .four).stateOf queueOps) (queued.map .event) := by
  have hrun : Run (machine 0 .four) ((machine 0 .four).traceOf queueOps)
      ((machine 0 .four).stateOf queueOps) := Machine.run_exec (by decide +kernel)
  have hmeets : (machine 0 .four).Along (MeetsOwn 0) [] (machine 0 .four).init queueOps :=
    ⟨trivial, trivial, trivial⟩
  obtain ⟨gone, sent, hsends, hgone, hholds⟩ := run_holds hrun fun pre e post heq =>
    Machine.along_traceOf hmeets heq
  have hpops : pops ((machine 0 .four).traceOf queueOps) = 0 := by decide +kernel
  have hqueued : sends ((machine 0 .four).traceOf queueOps) = queued.map .event := by
    decide +kernel
  obtain rfl : gone = [] := List.length_eq_zero_iff.1 (hgone.trans hpops)
  rw [hqueued, List.nil_append] at hsends
  rwa [hsends]

theorem event_found_second :
    Allows .four 1 (ahead 0 1 queued) ∧
      Finds 0 .four 0 ((machine 0 .four).stateOf (queueOps ++ [waitCall 1])) ⟨1, 3, 4, 5⟩ := by
  have hallows : Allows .four 1 (ahead 0 1 queued) := by decide +kernel
  have hcall : step 0 ((machine 0 .four).stateOf queueOps) (waitCall 1) =
      some ((machine 0 .four).stateOf (queueOps ++ [waitCall 1]), .nothing) := rfl
  exact ⟨hallows, (event_found_iff 0 .four holds_queueOps (by decide +kernel) hcall).2
    ⟨by simp, hallows⟩⟩

/-- With timeout 0 the event that is not waited for uses up the receive, which returns 1
although the other one is in the queue. -/
theorem event_behind_another_missed :
    Run (machine 0 .four) ((machine 0 .four).traceOf (queueOps ++ [waitCall 0, .round 0]))
        ((machine 0 .four).stateOf (queueOps ++ [waitCall 0, .round 0])) ∧
      ((machine 0 .four).traceOf (queueOps ++ [waitCall 0, .round 0])).map Transition.out =
        [.ret 0, .ret 0, .nothing, .round true .timeout] ∧
      sends ((machine 0 .four).traceOf (queueOps ++ [waitCall 0, .round 0])) = queued.map .event ∧
      firstMatch 0 1 queued = some ⟨1, 3, 4, 5⟩ :=
  ⟨Machine.run_exec (by decide +kernel), by decide +kernel, by decide +kernel, by decide +kernel⟩

end LuatosPc.Rtos.Task
