import LuatosPc.Base.Fifo
import LuatosPc.Uart.Win32

/-!
# The input of the Windows backend

The worker of a port pushes what it reads onto the port's vector in `UART_BUFF`, and
`luat_uart_read_extern` takes from its front: it copies the bytes out and lets `vec_cut`
move the others down.  Both do so under the mutex of the map.

* `vecCut_eq_drop` — what the loop of `vec_cut` and the resize behind it come to.
* `Touches` — a step uses or replaces the vector of a port; `uartBuff_of_not_touches` —
  any other step leaves it alone.
* `readFrom`, `pushedTo` — the bytes a step takes from a port and pushes for it;
  `Renews` — an open or a close replaces the vector.
* `step_input` — one step takes off the front what it reads and puts behind what it
  pushes; `uart_input_stream` — so does everything between an open and the next close.
-/

namespace LuatosPc
namespace Uart

/-! ## Cutting a vector -/

/-- After `k` rounds of the loop of `vec_cut` the first `k` bytes are in place, and the
others are as they were. -/
theorem foldl_shift {v : List UInt8} {start k : Nat} (hk : k + start ≤ v.length) :
    (List.range k).foldl (fun w i => w.set i (w.getD (i + start) 0)) v =
      (v.drop start).take k ++ v.drop k := by
  induction k with
  | zero => simp
  | succ k ih =>
    have hk' : k < v.length := by omega
    have hsrc : k < (v.drop start).length := by
      rw [List.length_drop]
      omega
    have hfront : ((v.drop start).take k).length = k := by
      rw [List.length_take]
      omega
    -- the byte that is moved has not been overwritten yet
    have hbyte : ((v.drop start).take k ++ v.drop k).getD (k + start) 0 = (v.drop start)[k] := by
      rw [List.getD_append_right _ _ _ _ (by omega), hfront, Nat.add_sub_cancel_left,
        List.getD_eq_getElem _ _ (by rw [List.length_drop]; omega), List.getElem_drop,
        List.getElem_drop]
      congr 1
      omega
    rw [List.range_succ, List.foldl_append, ih (by omega), List.foldl_cons, List.foldl_nil, hbyte,
      List.set_append_right _ _ (by omega), hfront, Nat.sub_self, List.drop_eq_getElem_cons hk',
      List.set_cons_zero, List.take_succ_eq_append_getElem hsrc, List.append_assoc]
    rfl

/-- `vec_cut` with a start that is not beyond the end. -/
theorem vecCut_eq_drop {v : List UInt8} {start : Nat} (h : start ≤ v.length) :
    vecCut v start = v.drop start := by
  have hlen : (v.drop start).length = v.length - start := List.length_drop
  rw [vecCut, foldl_shift (by omega), ← hlen, List.take_length, List.take_left]

/-! ## What a step does to the vectors -/

/-- The port whose vector is used or replaced under the mutex that is locked here. -/
def Pc.buffPort : Pc → Option Port
  | .readBuff port _ | .workBuff port _ | .openBuff port | .closeLock .uartBuff port => some port
  | _ => none

theorem Pc.buffPort_eq_some {pc : Pc} {port : Port} (h : pc.buffPort = some port) :
    (∃ len, pc = .readBuff port len) ∨ (∃ data, pc = .workBuff port data) ∨
      pc = .openBuff port ∨ pc = .closeLock .uartBuff port := by
  unfold Pc.buffPort at h
  split at h
  · cases h
    exact Or.inl ⟨_, rfl⟩
  · cases h
    exact Or.inr (Or.inl ⟨_, rfl⟩)
  · cases h
    exact Or.inr (Or.inr (Or.inl rfl))
  · cases h
    exact Or.inr (Or.inr (Or.inr rfl))
  · cases h

/-- Under a mutex, the vector of any other port stays as it is. -/
theorem Pc.locked_uartBuff_of_ne {pc : Pc} {port : Port} (h : pc.buffPort ≠ some port) (μ : Maps)
    (taken : Option Nat) : (pc.locked μ taken).1.uartBuff port = μ.uartBuff port := by
  -- to write at another port changes nothing here
  have hother : ∀ {p : Port} (v : Option (List UInt8)), some p ≠ some port →
      Function.update μ.uartBuff p v port = μ.uartBuff port := by
    intro p v hp
    exact Function.update_of_ne (fun hpp => hp (congrArg some hpp.symm)) _ _
  cases pc with
  | readBuff p len =>
    simp only [Pc.locked]
    split
    · rfl
    · exact hother _ h
  | workBuff p data =>
    simp only [Pc.locked]
    split
    · rfl
    · exact hother _ h
  | openBuff p => exact hother _ h
  | closeLock m p =>
    cases m with
    | uartBuff => exact hother _ h
    | _ => rfl
  | workRecvCb | workClosed | workSend | workFlush =>
    simp only [Pc.locked]
    split <;> rfl
  | _ => rfl

/-- The transition uses or replaces the vector of the port. -/
def Touches (port : Port) (e : Trans) : Prop :=
  ∃ t taken, e.act = .lock t taken ∧ (e.src.pc t).buffPort = some port

section

variable {σ σ' : State} {a : Act} {o : Answer} {port : Port} {xs : List UInt8}

theorem uartBuff_of_not_touches (h : step σ a = some (σ', o))
    (hn : ¬ Touches port ⟨σ, a, o, σ'⟩) : σ'.maps.uartBuff port = σ.maps.uartBuff port := by
  cases a with
  | lock t taken =>
    rw [maps_of_lock h]
    exact Pc.locked_uartBuff_of_ne (fun hport => hn ⟨t, taken, rfl, hport⟩) _ _
  | _ => rw [maps_of_ne_lock h (by simp)]

/-- A read under the mutex. -/
theorem step_readBuff {t : Thread} {taken : Option Nat} {len : Nat}
    (h : step σ (.lock t taken) = some (σ', o)) (hpc : σ.pc t = .readBuff port len)
    (hx : σ.maps.uartBuff port = some xs) :
    σ'.maps.uartBuff port = some (vecCut xs (min len xs.length)) ∧
      σ'.pc t = .readDrop (xs.take (min len xs.length)) := by
  have hmin : (if xs.length ≥ len then len else xs.length) = min len xs.length := by
    split <;> omega
  rw [maps_of_lock h, (pc_of_lock h).1, hpc]
  simp only [Pc.locked, hx, hmin]
  exact ⟨Function.update_self _ _ _, trivial⟩

/-- A push under the mutex. -/
theorem step_workBuff {t : Thread} {taken : Option Nat} {data : List UInt8}
    (h : step σ (.lock t taken) = some (σ', o)) (hpc : σ.pc t = .workBuff port data)
    (hx : σ.maps.uartBuff port = some xs) : σ'.maps.uartBuff port = some (xs ++ data) := by
  rw [maps_of_lock h, hpc]
  simp only [Pc.locked, hx]
  exact Function.update_self _ _ _

end

/-! ## The stream of a port -/

/-- The bytes that a read of the port takes under the mutex. -/
def readFrom (port : Port) (e : Trans) : List UInt8 :=
  match e.act with
  | .lock t _ =>
    match e.src.pc t, e.dst.pc t with
    | .readBuff p _, .readDrop bytes => if p = port then bytes else []
    | _, _ => []
  | _ => []

/-- The block that a worker pushes for the port under the mutex. -/
def pushedTo (port : Port) (e : Trans) : List UInt8 :=
  match e.act with
  | .lock t _ =>
    match e.src.pc t, e.src.maps.uartBuff port with
    | .workBuff p data, some _ => if p = port then data else []
    | _, _ => []
  | _ => []

/-- An open or a close replaces the vector of the port. -/
def Renews (port : Port) (e : Trans) : Prop :=
  ∃ t taken, e.act = .lock t taken ∧
    (e.src.pc t = .openBuff port ∨ e.src.pc t = .closeLock .uartBuff port)

section

variable {σ σ' : State} {a : Act} {o : Answer} {port : Port} {xs : List UInt8}

theorem readFrom_of_not_touches {e : Trans} (h : ¬ Touches port e) : readFrom port e = [] := by
  unfold readFrom
  split
  · rename_i t taken hact
    split
    · rename_i p len bytes hpc _
      refine if_neg ?_
      rintro rfl
      exact h ⟨t, taken, hact, by rw [hpc]; rfl⟩
    · rfl
  · rfl

theorem pushedTo_of_not_touches {e : Trans} (h : ¬ Touches port e) : pushedTo port e = [] := by
  unfold pushedTo
  split
  · rename_i t taken hact
    split
    · rename_i p data b hpc _
      refine if_neg ?_
      rintro rfl
      exact h ⟨t, taken, hact, by rw [hpc]; rfl⟩
    · rfl
  · rfl

/-- **One step** takes off the front of the vector what it reads and puts behind it what
it pushes. -/
theorem step_input (hx : σ.maps.uartBuff port = some xs) (h : step σ a = some (σ', o))
    (hrenew : ¬ Renews port ⟨σ, a, o, σ'⟩) :
    ∃ ys, σ'.maps.uartBuff port = some ys ∧
      readFrom port ⟨σ, a, o, σ'⟩ ++ ys = xs ++ pushedTo port ⟨σ, a, o, σ'⟩ := by
  by_cases htouch : Touches port ⟨σ, a, o, σ'⟩
  · obtain ⟨t, taken, hact, hport⟩ := htouch
    dsimp only at hact hport
    subst hact
    obtain ⟨len, hpc⟩ | ⟨data, hpc⟩ | hpc := Pc.buffPort_eq_some hport
    · obtain ⟨hmap, hpc'⟩ := step_readBuff h hpc hx
      rw [vecCut_eq_drop (Nat.min_le_right _ _)] at hmap
      refine ⟨_, hmap, ?_⟩
      simp only [readFrom, pushedTo, hpc, hpc', if_true, List.append_nil, List.take_append_drop]
    · refine ⟨_, step_workBuff h hpc hx, ?_⟩
      simp only [readFrom, pushedTo, hpc, hx, if_true, List.nil_append]
    · exact absurd ⟨t, taken, rfl, hpc⟩ hrenew
  · refine ⟨xs, (uartBuff_of_not_touches h htouch).trans hx, ?_⟩
    rw [readFrom_of_not_touches htouch, pushedTo_of_not_touches htouch, List.append_nil,
      List.nil_append]

/-- A read that has taken its bytes gives them to its caller, in the step in which it
unlocks the mutex. -/
theorem readDrop_step {t : Thread} {bytes : List UInt8} (hpc : σ.pc t = .readDrop bytes)
    (h : step σ a = some (σ', o)) :
    σ'.pc t = .readDrop bytes ∨ (a = .unlock t ∧ o = .read bytes) := by
  obtain ⟨-, hsame⟩ | ⟨-, -, hwants, -⟩ | ⟨hact, -, -, ho⟩ | ⟨hfree, -⟩ := thread_step h t
  · exact Or.inl (hsame.trans hpc)
  · rw [hpc] at hwants
    exact absurd rfl hwants
  · rw [hpc] at ho
    exact Or.inr ⟨hact, ho⟩
  · rw [hpc] at hfree
    exact absurd hfree id

end

/-- What a step may do with the vector of a port: a read takes as many bytes as it asks
for or as there are, lets `vec_cut` start within the vector, and leaves the vectors of
the other ports alone, as does a push. -/
structure Orderly (port : Port) (e : Trans) : Prop where
  read : ∀ t taken len, e.act = .lock t taken → e.src.pc t = .readBuff port len →
    ∃ b n, e.src.maps.uartBuff port = some b ∧ n = min len b.length ∧ n ≤ b.length ∧
      e.dst.pc t = .readDrop (b.take n) ∧ (b.take n).length = n ∧
      e.dst.maps.uartBuff port = some (vecCut b n)
  others : ∀ t taken, e.act = .lock t taken →
    (∃ len, e.src.pc t = .readBuff port len) ∨ (∃ data, e.src.pc t = .workBuff port data) →
    ∀ p, p ≠ port → e.dst.maps.uartBuff p = e.src.maps.uartBuff p

theorem step_orderly {σ σ' : State} {a : Act} {o : Answer} {port : Port} {xs : List UInt8}
    (hx : σ.maps.uartBuff port = some xs) (h : step σ a = some (σ', o)) :
    Orderly port ⟨σ, a, o, σ'⟩ := by
  constructor
  · rintro t taken len hact hpc
    dsimp only at hact hpc
    subst hact
    obtain ⟨hmap, hpc'⟩ := step_readBuff h hpc hx
    refine ⟨xs, min len xs.length, hx, rfl, Nat.min_le_right _ _, hpc', ?_, hmap⟩
    rw [List.length_take]
    omega
  · rintro t taken hact hpc p hp
    dsimp only at hact hpc
    subst hact
    have hport : (σ.pc t).buffPort = some port := by
      obtain ⟨len, hpc⟩ | ⟨data, hpc⟩ := hpc
      · rw [hpc]
        rfl
      · rw [hpc]
        rfl
    apply uartBuff_of_not_touches h
    rintro ⟨u, taken', hact, hport'⟩
    cases hact
    exact hp (Option.some.inj (hport'.symm.trans hport))

/-- **The input of a port.**  From the step of an open that makes the vector of the port,
and until an open or a close replaces it, the bytes taken by reads followed by the vector
are the blocks pushed by the workers.  Reads and pushes are orderly, and a read returns
the bytes it has taken. -/
theorem uart_input_stream {tr : List Trans} {σ : State} (h : Run machine tr σ)
    {pre post : List Trans} {c : Trans} (he : tr = pre ++ c :: post) {t : Thread}
    {taken : Option Nat} {port : Port} (hact : c.act = .lock t taken)
    (hopen : c.src.pc t = .openBuff port) (hrenew : ∀ e ∈ post, ¬ Renews port e) :
    (∃ b, σ.maps.uartBuff port = some b ∧
      post.flatMap (readFrom port) ++ b = post.flatMap (pushedTo port)) ∧
    (∀ e ∈ post, Orderly port e) ∧
    ∀ e ∈ post, ∀ u bytes, e.src.pc u = .readDrop bytes →
      e.dst.pc u = .readDrop bytes ∨ (e.act = .unlock u ∧ e.out = .read bytes) := by
  have hfirst : c.dst.maps.uartBuff port = some [] := by
    have hstep := (h.split he).2
    rw [hact] at hstep
    rw [maps_of_lock hstep, hopen]
    exact Function.update_self _ _ _
  have hpath := h.path he
  refine ⟨?_, ?_, ?_⟩
  · have hfifo : ∃ ys, σ.maps.uartBuff port = some ys ∧ post.flatMap (readFrom port) ++ ys =
        [] ++ post.flatMap (pushedTo port) := by
      apply hpath.fifo (R := fun σ xs => σ.maps.uartBuff port = some xs)
        (C := fun e => ¬ Renews port e) hrenew hfirst
      intro σ a σ' o xs hx hs hC
      exact step_input hx hs hC
    exact hfifo
  · -- the vector is there all the time
    refine (hpath.forall_iff (P := fun σ => ∃ xs, σ.maps.uartBuff port = some xs)
      (C := fun e => ¬ Renews port e) (R := fun _ => True) hrenew ⟨[], hfirst⟩ ?_ ?_).2
      fun _ _ => trivial
    · rintro σ a σ' o ⟨xs, hx⟩ hs -
      exact iff_of_true (step_orderly hx hs) trivial
    · rintro σ a σ' o ⟨xs, hx⟩ hs hC -
      obtain ⟨ys, hys, -⟩ := step_input hx hs hC
      exact ⟨ys, hys⟩
  · intro e hmem u bytes hpc
    have hstep := h.step_of_mem (e := e) (by rw [he]; simp [hmem])
    exact readDrop_step hpc hstep

/-- Thread 0 opens port 1, the worker pushes three bytes, and thread 0 reads two. -/
def inputOps : List Act :=
  [.call 0 (.luatUartOpenExtern 1), .lock 0 none, .lock 0 none, .unlock 0, .unlock 0, .spawn 0 1,
    .uartRead 1 (.data [1, 2, 3]), .lock 1 none, .unlock 1, .call 0 (.luatUartReadExtern 1 2),
    .lock 0 none, .unlock 0, .lock 0 none, .unlock 0]

theorem uart_input_stream_twoOfThree :
    ((machine.traceOf inputOps).drop 2).flatMap (readFrom 1) = [1, 2] ∧
      ∃ b, (machine.stateOf inputOps).maps.uartBuff 1 = some b ∧
        ((machine.traceOf inputOps).drop 2).flatMap (readFrom 1) ++ b =
          ((machine.traceOf inputOps).drop 2).flatMap (pushedTo 1) := by
  have h1 : 1 < (machine.traceOf inputOps).length := by decide +kernel
  have hthreads : ∀ a ∈ inputOps.drop 2, ∀ t ∈ a.threads, t ∈ [0, 1] := by decide
  -- thread 0 is through with the open
  have hplain : ∀ e ∈ (machine.traceOf inputOps).drop 2, ∀ t ∈ [0, 1],
      e.src.pc t ≠ .openBuff 1 ∧ e.src.pc t ≠ .closeLock .uartBuff 1 := by decide +kernel
  refine ⟨by decide +kernel, ?_⟩
  refine (uart_input_stream (Machine.run_exec (by decide +kernel)) (Machine.traceOf_split h1) (t := 0)
    rfl rfl ?_).1
  rintro e he ⟨t, taken, hact, hpc⟩
  have ht : t ∈ [0, 1] :=
    hthreads _ (Machine.act_mem_of_mem_drop he) t (by rw [hact]; exact List.mem_singleton_self t)
  obtain ⟨hopen, hclose⟩ := hplain e he t ht
  exact hpc.elim hopen hclose

end Uart
end LuatosPc
