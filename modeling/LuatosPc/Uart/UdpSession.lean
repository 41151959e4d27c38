import LuatosPc.Uart.Udp

/-!
# Output and sessions of serial ports over UDP

What a caller of `uart_drv_udp.c` may rely on when it writes, and when it closes a port
and opens it again.

* `writeLoop_spec` — the loop of `uart_write_udp`: how long its datagrams are, and which
  byte of the buffer stands where in them.
* `udp_write_iff` — a write is cut into datagrams without loss if and only if there is
  nothing to write: the pointer never moves, and what is returned is what is left.
* `NeverOpen` — a port that has not been set up; `zero_step` and `state_step` — it stays so
  until it is set up, and once open it stays open, since `uart_close_udp` does nothing.
* `Separated` — a close ends a session; `udp_sessions_iff` — it does so if and only if
  there was none.
-/

namespace LuatosPc.Uart.Udp

open LuatosPc.Bytes

/-! ## Output -/

/-- **The loop of `uart_write_udp`**: nothing is left in `length`, no datagram is longer
than 512 bytes, and at every place stands the byte at the same place of the first 512. -/
theorem writeLoop_spec (data : List UInt8) (rounds length : Nat) (hrounds : length ≤ rounds)
    (hlen : length ≤ data.length) :
    (writeLoop data rounds length).2 = 0 ∧
      (∀ d ∈ (writeLoop data rounds length).1, d.length ≤ 512) ∧
      (writeLoop data rounds length).1.flatten.length = length ∧
      ∀ i < length, (writeLoop data rounds length).1.flatten[i]? = data[i % 512]? := by
  induction rounds generalizing length with
  | zero =>
    obtain rfl : length = 0 := by omega
    simp [writeLoop]
  | succ rounds ih =>
    rw [writeLoop]
    split
    · rename_i hzero
      simp [hzero]
    · split
      · -- 512 bytes from the start of `data`, then the other rounds
        rename_i hlong
        obtain ⟨hleft, hshort, hsum, hbytes⟩ := ih (length - 512) (by omega) (by omega)
        have htake : (data.take 512).length = 512 := by
          rw [List.length_take]
          omega
        refine ⟨hleft, ?_, ?_, ?_⟩
        · intro d hd
          rcases List.mem_cons.1 hd with rfl | hd
          · exact htake.le
          · exact hshort d hd
        · rw [List.flatten_cons, List.length_append, htake, hsum]
          omega
        · intro i hi
          rw [List.flatten_cons]
          rcases Nat.lt_or_ge i 512 with hfirst | hnext
          · rw [List.getElem?_append_left (by omega), List.getElem?_take_of_lt hfirst,
              Nat.mod_eq_of_lt hfirst]
          · rw [List.getElem?_append_right (by omega), htake, hbytes _ (by omega),
              ← Nat.mod_eq_sub_mod hnext]
      · -- the last round
        rename_i hshort
        refine ⟨rfl, ?_, ?_, ?_⟩
        · intro d hd
          rw [List.mem_singleton.1 hd, List.length_take]
          omega
        · simpa using hlen
        · intro i hi
          rw [List.flatten_singleton, List.getElem?_take_of_lt hi, Nat.mod_eq_of_lt (by omega)]

/-- The datagrams `ds` carry `data` in pieces of at most 512 bytes, and its length is
returned. -/
structure CarriesAll (data : List UInt8) (r : Int) (ds : List (List UInt8)) : Prop where
  short : ∀ d ∈ ds, d.length ≤ 512
  whole : ds.flatten = data
  ret : r = data.length

/-- **A write to an open port**: it returns 0, its datagrams are at most 512 bytes long
and carry as many bytes as there are.  They carry the bytes of the buffer if and only if
every byte equals the one at the same place of the first 512; and they do so with the
length returned if and only if the buffer is empty. -/
theorem udp_write_iff {σ : Udps} {id : Int} {u : Port} (hid : portOf id = some u)
    (hopen : (σ u).state = true) (data : List UInt8) :
    ∃ r ds, step σ (.write id data) = some (σ, .sent r ds) ∧ r = 0 ∧
      (∀ d ∈ ds, d.length ≤ 512) ∧ ds.flatten.length = data.length ∧
      (ds.flatten = data ↔ ∀ i < data.length, data[i]? = data[i % 512]?) ∧
      (CarriesAll data r ds ↔ data = []) := by
  obtain ⟨hleft, hshort, hsum, hbytes⟩ := writeLoop_spec data data.length data.length le_rfl le_rfl
  have hwrite : uartWriteUdp (σ u) data = writeLoop data data.length data.length := by
    rw [uartWriteUdp, hopen]
    rfl
  refine ⟨0, (writeLoop data data.length data.length).1, ?_, rfl, hshort, hsum, ⟨?_, ?_⟩, ?_, ?_⟩
  · simp only [step, hid, hwrite, hleft]
    rfl
  · intro hwhole i hi
    have hi' := hbytes i hi
    rwa [hwhole] at hi'
  · intro hperiod
    apply List.ext_getElem?
    intro i
    rcases Nat.lt_or_ge i data.length with hi | hi
    · rw [hbytes i hi, hperiod i hi]
    · rw [List.getElem?_eq_none hi, List.getElem?_eq_none (by omega)]
  · intro hall
    have hzero : data.length = 0 := by exact_mod_cast hall.ret.symm
    exact List.length_eq_zero_iff.1 hzero
  · rintro rfl
    exact ⟨by simp [writeLoop], rfl, rfl⟩

/-- Port 1 is set up. -/
def openOps : List Act := [.setup 1 0]

theorem udp_write_empty :
    (machine.stateOf openOps 1).state = true ∧
      ∃ r ds, step (machine.stateOf openOps) (.write 1 []) =
        some (machine.stateOf openOps, .sent r ds) ∧ CarriesAll [] r ds := by
  have hopen : (machine.stateOf openOps 1).state = true := by decide +kernel
  obtain ⟨r, ds, hs, -, -, -, -, hall⟩ :=
    udp_write_iff (show portOf 1 = some 1 by decide) hopen []
  exact ⟨hopen, r, ds, hs, hall.2 rfl⟩

/-- 512 zeros and a one. -/
def longBuffer : List UInt8 := List.replicate 512 0 ++ [1]

/-- Of a buffer of 513 bytes the last one is not sent, the first one is sent twice, and 0
is returned. -/
theorem udp_write_repeats :
    Run machine (machine.traceOf openOps) (machine.stateOf openOps) ∧
      step (machine.stateOf openOps) (.write 1 longBuffer) =
        some (machine.stateOf openOps, .sent 0 [List.replicate 512 0, [0]]) ∧
      ¬ CarriesAll longBuffer 0 [List.replicate 512 0, [0]] := by
  have hwrite : uartWriteUdp (machine.stateOf openOps 1) longBuffer =
      ([List.replicate 512 0, [0]], 0) := by decide +kernel
  have hid : portOf 1 = some 1 := by decide
  have hlen : longBuffer.length = 513 := by decide +kernel
  refine ⟨Machine.run_exec (by decide +kernel), ?_, ?_⟩
  · simp only [step, hid, hwrite]
    rfl
  · intro hall
    have hret := hall.ret
    rw [hlen] at hret
    exact absurd hret (by decide)

/-! ## Sessions -/

/-- The action sets up port `u`. -/
def SetsUp (u : Port) (a : Act) : Prop := ∃ id ret, a = .setup id ret ∧ portOf id = some u

/-- Port `u` has not been set up, and nothing has arrived for it. -/
def NeverOpen (u : Port) (tr : List Trans) (σ : Udps) : Prop := σ u = .zero ∧ arrived u tr = []

section

variable {σ σ' : Udps} {a : Act} {o : Answer} {u : Port}

theorem state_uartUdpRecvCb {p p' : UartDrvUdp} {data : Option (List UInt8)} {room : Bool}
    {junk : Nat → UInt8} {n : Option Nat}
    (h : uartUdpRecvCb p data room junk = some (p', n)) : p'.state = p.state := by
  unfold uartUdpRecvCb at h
  grind [Option.map_eq_some_iff]

theorem state_uartReadUdp {p p' : UartDrvUdp} {length : Nat} {room : Bool} {bytes : List UInt8}
    (h : uartReadUdp p length room = some (p', bytes)) : p'.state = p.state := by
  unfold uartReadUdp at h
  grind

/-- An open port stays open. -/
theorem state_step (hs : step σ a = some (σ', o)) (hopen : (σ u).state = true) :
    (σ' u).state = true := by
  have heffect := step_effect hs u
  generalize σ' u = p' at heffect ⊢
  cases heffect with
  | same _ => exact hopen
  | setup _ => rw [uartSetupUdp, if_pos hopen, hopen]
  | recv _ hrecv _ => rw [state_uartUdpRecvCb hrecv, hopen]
  | recvFault _ => exact hopen
  | read _ hread => rw [state_uartReadUdp hread, hopen]
  | readFault _ _ => exact hopen

theorem uartReadUdp_zero (length : Nat) (room : Bool) :
    uartReadUdp .zero length room = some (.zero, []) := rfl

theorem uartWriteUdp_zero (data : List UInt8) : uartWriteUdp .zero data = ([], 0) := rfl

/-- **A port that has not been set up** stays so until it is. -/
theorem zero_step (hs : step σ a = some (σ', o)) (hzero : σ u = .zero) (hset : ¬ SetsUp u a) :
    σ' u = .zero := by
  have heffect := step_effect hs u
  rw [hzero] at heffect
  generalize σ' u = p' at heffect ⊢
  cases heffect with
  | same _ => rfl
  | setup hid => exact absurd ⟨_, _, rfl, hid⟩ hset
  | recv hreceiving _ _ => exact absurd hreceiving (by decide)
  | recvFault _ => rfl
  | read _ hread =>
    rw [uartReadUdp_zero] at hread
    cases hread
    rfl
  | readFault _ _ => rfl

/-- Nothing arrives for a port that has not been set up. -/
theorem arrivedAt_of_zero (hs : step σ a = some (σ', o)) (hzero : σ u = .zero) :
    arrivedAt u ⟨σ, a, o, σ'⟩ = [] := by
  cases a with
  | recv v data room junk =>
    simp only [step, Option.ite_none_right_eq_some] at hs
    have hv : v ≠ u := by
      rintro rfl
      rw [hzero] at hs
      exact absurd hs.1 (by decide)
    cases data with
    | none => rfl
    | some bytes => exact if_neg hv
  | _ => rfl

/-- Reads from a port that has not been set up return 0. -/
theorem read_of_zero {id : Int} {length : Nat} {room : Bool} (hid : portOf id = some u)
    (hs : step σ (.read id length room) = some (σ', o)) (hzero : σ u = .zero) :
    o = .got 0 [] := by
  simp only [step, hid, hzero, uartReadUdp_zero] at hs
  cases hs
  rfl

/-- Writes to a port that has not been set up return 0, and send nothing. -/
theorem write_of_zero {id : Int} {data : List UInt8} (hid : portOf id = some u)
    (hs : step σ (.write id data) = some (σ', o)) (hzero : σ u = .zero) : o = .sent 0 [] := by
  simp only [step, hid, hzero, uartWriteUdp_zero] at hs
  cases hs
  rfl

end

/-- In every run a port is open or has never been. -/
theorem open_or_neverOpen {tr : List Trans} {σ : Udps} (h : Run machine tr σ) (u : Port) :
    NeverOpen u tr σ ∨ (σ u).state = true := by
  induction h with
  | start => exact Or.inl ⟨rfl, rfl⟩
  | @snoc tr σ σ' a o _ hs ih =>
    rcases ih with ⟨hzero, hnone⟩ | hopen
    · by_cases hset : SetsUp u a
      · obtain ⟨id, ret, rfl, hid⟩ := hset
        refine Or.inr ?_
        have hs' : step σ (.setup id ret) = some (σ', o) := hs
        simp only [step, hid] at hs'
        cases hs'
        rw [Function.update_self, hzero]
        rfl
      · refine Or.inl ⟨zero_step hs hzero hset, ?_⟩
        simp only [arrived, List.flatMap_append, List.flatMap_singleton,
          arrivedAt_of_zero hs hzero, List.append_nil]
        exact hnone
    · exact Or.inr (state_step hs hopen)

/-- Without a set-up, a port that has not been set up stays so. -/
theorem zero_of_path {σ σ' : Udps} {tr : List Trans} {u : Port} (h : Path machine σ tr σ')
    (hzero : σ u = .zero) (hset : ∀ e ∈ tr, ¬ SetsUp u e.act) : σ' u = .zero := by
  induction h with
  | nil => exact hzero
  | @snoc tr τ τ' a o _ hs ih =>
    have hlast : ¬ SetsUp u a := hset ⟨τ, a, o, τ'⟩ (by simp)
    refine zero_step hs (ih ?_) hlast
    intro e he
    exact hset e (List.mem_append_left _ he)

/-- **A close of port `u` separates two sessions**: `pre` is what happened before, `post`
what happened since. -/
structure Separated (u : Port) (pre post : List Trans) : Prop where
  /-- Until the port is set up again, reads and writes return 0 and send nothing. -/
  closed : ∀ mid f rest, post = mid ++ f :: rest → (∀ g ∈ mid, ¬ SetsUp u g.act) →
    (∀ id length room, f.act = .read id length room → portOf id = some u → f.out = .got 0 []) ∧
      ∀ id data, f.act = .write id data → portOf id = some u → f.out = .sent 0 []
  /-- After that, a byte that arrived before the close is not returned more often than it has
  arrived since. -/
  fresh : ∀ mid f rest, post = mid ++ f :: rest → (∃ g ∈ mid, SetsUp u g.act) →
    ∀ x ∈ arrived u pre, (returned u (mid ++ [f])).count x ≤ (arrived u mid).count x

/-- **The sessions of a serial port over UDP**: a close separates what follows from what
came before, however it goes on, if and only if the port was not open. -/
theorem udp_sessions_iff {pre : List Trans} {σ σ' : Udps} {id : Int} {u : Port} {o : Answer}
    (h : Run machine pre σ) (hid : portOf id = some u)
    (hclose : machine.step σ (.close id) = some (σ', o)) :
    (∀ post σ'', Path machine σ' post σ'' → Separated u pre post) ↔ (σ u).state = false := by
  -- nothing is closed
  obtain rfl : σ = σ' := by
    have hs : step σ (.close id) = some (σ', o) := hclose
    simp only [step, hid, uartCloseUdp, Function.update_eq_self, Option.some.injEq,
      Prod.mk.injEq] at hs
    exact hs.1
  constructor
  · intro hall
    by_contra hopen
    -- the next write is sent
    have hstate : (σ u).state = true := by simpa using hopen
    have hsend : uartWriteUdp (σ u) [0] = ([[0]], 0) := by
      rw [uartWriteUdp, hstate]
      rfl
    have hwrite : machine.step σ (.write id [0]) = some (σ, .sent 0 [[0]]) := by
      show step σ (.write id [0]) = _
      simp only [step, hid, hsend]
      rfl
    have hsent := ((hall _ _ (Path.nil.snoc hwrite)).closed [] _ [] rfl (by simp)).2 id [0] rfl hid
    exact absurd hsent (by simp)
  · intro hclosed post σ'' hpath
    obtain ⟨hzero, hnone⟩ : NeverOpen u pre σ := by
      refine (open_or_neverOpen h u).resolve_right ?_
      rw [hclosed]
      exact Bool.false_ne_true
    constructor
    · intro mid f rest hpost hset
      obtain ⟨hmid, hf⟩ := hpath.split hpost
      have hfzero : f.src u = .zero := zero_of_path hmid hzero hset
      obtain ⟨τ, b, out, τ'⟩ := f
      constructor
      · rintro id' length room rfl hid'
        exact read_of_zero hid' hf hfzero
      · rintro id' data rfl hid'
        exact write_of_zero hid' hf hfzero
    · intro mid f rest _ _ x hx
      rw [hnone] at hx
      exact absurd hx List.not_mem_nil

/-- Port 2 is opened, gets two bytes and is read. -/
def otherPortOps : List Act :=
  [.setup 2 0, .recv 2 (some [7, 8]) true fun _ => 0, .write 2 [5], .read 2 16 true]

/-- Meanwhile port 1, which was never opened, is closed. -/
theorem udp_sessions_other :
    returned 2 (machine.traceOf otherPortOps) = [7, 8] ∧
      ∀ post σ', Path machine (machine.stateOf otherPortOps) post σ' →
        Separated 1 (machine.traceOf otherPortOps) post := by
  have hexec : (machine.exec machine.init otherPortOps).isSome = true := by decide +kernel
  have hid : portOf 1 = some 1 := by decide
  have hclose : machine.step (machine.stateOf otherPortOps) (.close 1) =
      some (machine.stateOf otherPortOps, .ret 0) := by
    show step _ (.close 1) = _
    simp only [step, hid, uartCloseUdp, Function.update_eq_self]
  exact ⟨by decide +kernel, (udp_sessions_iff (Machine.run_exec hexec) hid hclose).2 (by decide +kernel)⟩

/-- Port 1 is opened, gets a byte and is closed; then it is written to, opened and read. -/
def reopenOps : List Act :=
  [.setup 1 0, .recv 1 (some [7]) true fun _ => 0, .close 1, .write 1 [5], .setup 1 0,
    .read 1 16 true]

/-- The write after the close is sent, and the read after the next set-up returns the byte
that came before the close. -/
theorem udp_session_survives_close :
    Run machine (machine.traceOf reopenOps) (machine.stateOf reopenOps) ∧
      (machine.traceOf reopenOps).map Transition.out =
        [.ret 0, .message 1 1, .ret 0, .sent 0 [[5]], .ret 0, .got 1 [7]] ∧
      arrived 1 ((machine.traceOf reopenOps).take 2) = [7] ∧
      arrived 1 ((machine.traceOf reopenOps).drop 3) = [] ∧
      ¬ Separated 1 ((machine.traceOf reopenOps).take 2) ((machine.traceOf reopenOps).drop 3) := by
  refine ⟨Machine.run_exec (by decide +kernel), by decide +kernel, by decide +kernel,
    by decide +kernel, ?_⟩
  intro hsep
  have h0 : 0 < ((machine.traceOf reopenOps).drop 3).length := by decide +kernel
  have hwrite := (hsep.closed [] ((machine.traceOf reopenOps).drop 3)[0]
    ((machine.traceOf reopenOps).drop 4) (by rfl) (by simp)).2 1 [5] rfl (by decide)
  have hsent : (((machine.traceOf reopenOps).drop 3).map Transition.out)[0]? =
      some (.sent 0 [[5]]) := by decide +kernel
  rw [List.getElem?_map, List.getElem?_eq_getElem h0, Option.map_some, hwrite] at hsent
  exact absurd hsent (by decide)

end LuatosPc.Uart.Udp
