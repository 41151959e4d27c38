import LuatosPc.Base.Bytes
import LuatosPc.Base.Fifo

/-!
# Serial ports over UDP

The model of `uart_drv_udp.c`, the driver that makes a serial port of a pair of UDP
ports.  What arrives is kept behind `recv_buff`, of which `recv_len` bytes are to be
read.

* `UartDrvUdp` — one of the eight ports; `uartSetupUdp`, `uartUdpRecvCb`,
  `uartReadUdp`, `uartWriteUdp`, `uartCloseUdp` — the functions of the driver.
* `Act`, `step`, `machine` — the driver under every sequence of calls and arrivals.
* `Effect` — a step as one port sees it (`step_effect`).
* `Fits` — a datagram finds no buffer, and a read asks for all there is.
* `account` — how much is lost: the datagrams that find a buffer are not counted in
  `recv_len`.
* `UartDrvUdp.Holds.read_part` — a read of less than there is moves bytes from behind the
  block.
* `udp_uart_stream` — the bytes read and those to be read are the ones that arrived if
  and only if everything fits.
-/

namespace LuatosPc.Uart.Udp

open LuatosPc.Bytes

/-- The size of `udps[]`. -/
abbrev udpsNum : Nat := 8

instance : NeZero udpsNum := ⟨by decide⟩

/-- An index into `udps[]`. -/
abbrev Port := Fin udpsNum

/-- `uart_drv_udp_t`.  `state` is whether the port is open, and `receiving` whether
libuv delivers datagrams to `uart_udp_recv_cb`. -/
structure UartDrvUdp where
  state : Bool
  receiving : Bool
  recvBuff : Option Block
  recvLen : Nat
  deriving DecidableEq

/-- A zeroed entry of `udps[]`. -/
def UartDrvUdp.zero : UartDrvUdp := ⟨false, false, none, 0⟩

/-- `udps[]`. -/
abbrev Udps := Port → UartDrvUdp

theorem toNat_lt_udpsNum {id : Int} (h : 0 ≤ id ∧ id < 8) : id.toNat < udpsNum := by
  unfold udpsNum
  omega

/-- The check of an id. -/
def portOf (id : Int) : Option Port :=
  if h : 0 ≤ id ∧ id < 8 then some ⟨id.toNat, toNat_lt_udpsNum h⟩ else none

/-- `return length`: a `size_t` becomes an `int`. -/
def toInt (n : Nat) : Int := Int.bmod n (2 ^ 32)

/-- `uart_setup_udp` of a port.  `ret` is what `uv_udp_recv_start` returns, which is
only logged. -/
def uartSetupUdp (p : UartDrvUdp) (ret : Int) : UartDrvUdp :=
  if p.state then p else { p with state := true, receiving := ret = 0 }

/-- `uart_udp_recv_cb`: the port, and `arg2` of the message that is sent, if one is.
`data` is what was read, or `none` for an error; `room` says whether the block can be
allocated, and `junk` what stands in it.  There is no result if a copy leaves a
block. -/
def uartUdpRecvCb (p : UartDrvUdp) (data : Option (List UInt8)) (room : Bool)
    (junk : Nat → UInt8) : Option (UartDrvUdp × Option Nat) :=
  match data with
  | none => some (p, none)
  | some [] => some (p, none)
  | some (d :: ds) =>
    let newsize := p.recvLen + (d :: ds).length
    match p.recvBuff with
    | none =>
      -- the result of `luat_heap_malloc` is not looked at
      if room then
        some ({ p with recvBuff := some (d :: ds), recvLen := (d :: ds).length },
          some (d :: ds).length)
      else none
    | some b =>
      if room then
        -- `recv_len` stays as it is
        (store (realloc b newsize junk) p.recvLen (d :: ds)).map fun b =>
          ({ p with recvBuff := some b }, some (d :: ds).length)
      else some (p, none)

/-- `uart_read_udp` of a port: the port, and the bytes copied to `buffer`, whose number
is returned.  `room` says whether the smaller block can be allocated. -/
def uartReadUdp (p : UartDrvUdp) (length : Nat) (room : Bool) :
    Option (UartDrvUdp × List UInt8) :=
  if p.state = false then some (p, [])
  else if p.recvLen = 0 then some (p, [])
  else
    let n := if length > p.recvLen then p.recvLen else length
    match p.recvBuff with
    | none => none
    | some b =>
      if b.length < n then none
      else if p.recvLen > n then
        let newsize := p.recvLen - n
        -- the source of the `memmove` starts behind the bytes to be read
        if b.length < p.recvLen + newsize then none
        else
          let b' := overwrite b 0 ((b.drop p.recvLen).take newsize)
          some ({ p with recvBuff := if room then some (b'.take newsize) else none,
                         recvLen := newsize }, b.take n)
      else some ({ p with recvBuff := none, recvLen := 0 }, b.take n)

/-- The loop of `uart_write_udp`: the buffers passed to `uv_udp_send`, and what is left
in `length`.  `ptr` stays at the start of `data`, whichever round it is.  Each round takes
at least one off `length`. -/
def writeLoop (data : List UInt8) : Nat → Nat → List (List UInt8) × Nat
  | 0, length => ([], length)
  | rounds + 1, length =>
    if length = 0 then ([], 0)
    else if length > 512 then
      let r := writeLoop data rounds (length - 512)
      (data.take 512 :: r.1, r.2)
    else ([data.take length], 0)

/-- `uart_write_udp` of a port: what is sent, and what is returned. -/
def uartWriteUdp (p : UartDrvUdp) (data : List UInt8) : List (List UInt8) × Nat :=
  if p.state = false then ([], 0) else writeLoop data data.length data.length

/-- `uart_close_udp` of a port, which does nothing. -/
def uartCloseUdp (p : UartDrvUdp) : UartDrvUdp := p

/-! ## The driver as a machine -/

/-- A call of the driver, or the arrival of a datagram. -/
inductive Act
  | setup (id : Int) (ret : Int)
  | recv (u : Port) (data : Option (List UInt8)) (room : Bool) (junk : Nat → UInt8)
  | read (id : Int) (length : Nat) (room : Bool)
  | write (id : Int) (data : List UInt8)
  | close (id : Int)

/-- What an action gives to its caller. -/
inductive Answer
  | ret (r : Int)
  /-- A message with `arg1` and `arg2` is put on the bus. -/
  | message (arg1 : Port) (arg2 : Nat)
  | nothing
  | got (r : Int) (bytes : List UInt8)
  | sent (r : Int) (datagrams : List (List UInt8))
  /-- Port `u` leaves its block. -/
  | fault (u : Port)
  deriving DecidableEq

/-- One action. -/
def step (σ : Udps) : Act → Option (Udps × Answer)
  | .setup id ret =>
    match portOf id with
    | none => some (σ, .ret (-1))
    | some u => some (Function.update σ u (uartSetupUdp (σ u) ret), .ret 0)
  | .recv u data room junk =>
    if (σ u).receiving then
      match uartUdpRecvCb (σ u) data room junk with
      | none => some (σ, .fault u)
      | some (p, none) => some (Function.update σ u p, .nothing)
      | some (p, some n) => some (Function.update σ u p, .message u n)
    else none
  | .read id length room =>
    match portOf id with
    | none => some (σ, .got 0 [])
    | some u =>
      match uartReadUdp (σ u) length room with
      | none => some (σ, .fault u)
      | some (p, bytes) => some (Function.update σ u p, .got (toInt bytes.length) bytes)
  | .write id data =>
    match portOf id with
    | none => some (σ, .sent 0 [])
    | some u => some (σ, .sent (toInt (uartWriteUdp (σ u) data).2) (uartWriteUdp (σ u) data).1)
  | .close id =>
    match portOf id with
    | none => some (σ, .ret 0)
    | some u => some (Function.update σ u (uartCloseUdp (σ u)), .ret 0)

/-- The driver under every sequence of calls and arrivals. -/
def machine : Machine Udps Act Answer := ⟨fun _ => .zero, step⟩

/-- A transition of the driver. -/
abbrev Trans := Transition Udps Act Answer

/-- The bytes that arrive for port `u`. -/
def arrivedAt (u : Port) (e : Trans) : List UInt8 :=
  match e.act with
  | .recv u' (some bytes) _ _ => if u' = u then bytes else []
  | _ => []

/-- The bytes that a read of port `u` returns. -/
def returnedBy (u : Port) (e : Trans) : List UInt8 :=
  match e.act, e.out with
  | .read id _ _, .got _ bytes => if portOf id = some u then bytes else []
  | _, _ => []

/-- The bytes that have arrived for port `u`. -/
def arrived (u : Port) (tr : List Trans) : List UInt8 := tr.flatMap (arrivedAt u)

/-- The bytes that reads of port `u` have returned. -/
def returned (u : Port) (tr : List Trans) : List UInt8 := tr.flatMap (returnedBy u)

/-- What a port has received. -/
def UartDrvUdp.buffer (p : UartDrvUdp) : Option Block × Nat := (p.recvBuff, p.recvLen)

/-- `recv_buff[0..recv_len)`. -/
def UartDrvUdp.unread (p : UartDrvUdp) : List UInt8 := (p.recvBuff.getD []).take p.recvLen

/-- The allocations for port `u` succeed. -/
structure RoomOk (u : Port) (e : Trans) : Prop where
  recv : ∀ data room junk, e.act = .recv u data room junk → room = true
  read : ∀ id length room, e.act = .read id length room → portOf id = some u → room = true

/-- A datagram for port `u` finds no buffer. -/
def ArrivalFits (u : Port) (e : Trans) : Prop :=
  ∀ d ds room junk, e.act = .recv u (some (d :: ds)) room junk → (e.src u).recvBuff = none

/-- A read of port `u` asks for all there is. -/
def ReadFits (u : Port) (e : Trans) : Prop :=
  ∀ id length room, e.act = .read id length room → portOf id = some u →
    (e.src u).state = true → (e.src u).recvLen ≤ length

/-- Neither the append branch of `uart_udp_recv_cb` nor the branch of `uart_read_udp` for
a part of the buffer is taken. -/
def Fits (u : Port) (e : Trans) : Prop := ArrivalFits u e ∧ ReadFits u e

/-- Port `u` leaves its block. -/
def Faults (u : Port) (e : Trans) : Prop := e.out = .fault u

/-! ## What does not concern a port -/

/-- The action brings nothing to port `u` and reads nothing from it. -/
def Quiet (u : Port) : Act → Prop
  | .recv u' (some (_ :: _)) _ _ => u' ≠ u
  | .read id _ _ => portOf id ≠ some u
  | _ => True

theorem not_quiet_cases {u : Port} {a : Act} (h : ¬ Quiet u a) :
    (∃ d ds room junk, a = .recv u (some (d :: ds)) room junk) ∨
      ∃ id length room, a = .read id length room ∧ portOf id = some u := by
  unfold Quiet at h
  split at h
  · obtain rfl := not_not.1 h
    exact Or.inl ⟨_, _, _, _, rfl⟩
  · exact Or.inr ⟨_, _, _, rfl, not_not.1 h⟩
  · exact absurd trivial h

/-- What a step does to port `u`, which is `p` before it. -/
inductive Effect (u : Port) (p : UartDrvUdp) : Act → Answer → UartDrvUdp → Prop
  | same {a : Act} {o : Answer} (ho : o ≠ .fault u) : Effect u p a o p
  | setup {id ret : Int} (hid : portOf id = some u) :
    Effect u p (.setup id ret) (.ret 0) (uartSetupUdp p ret)
  | recv {data : Option (List UInt8)} {room : Bool} {junk : Nat → UInt8} {o : Answer}
    {p' : UartDrvUdp} {n : Option Nat} (hreceiving : p.receiving = true)
    (h : uartUdpRecvCb p data room junk = some (p', n)) (ho : o ≠ .fault u) :
    Effect u p (.recv u data room junk) o p'
  | recvFault {data : Option (List UInt8)} {room : Bool} {junk : Nat → UInt8}
    (h : uartUdpRecvCb p data room junk = none) :
    Effect u p (.recv u data room junk) (.fault u) p
  | read {id : Int} {length : Nat} {room : Bool} {p' : UartDrvUdp} {bytes : List UInt8}
    (hid : portOf id = some u) (h : uartReadUdp p length room = some (p', bytes)) :
    Effect u p (.read id length room) (.got (toInt bytes.length) bytes) p'
  | readFault {id : Int} {length : Nat} {room : Bool} (hid : portOf id = some u)
    (h : uartReadUdp p length room = none) : Effect u p (.read id length room) (.fault u) p

section

variable {σ σ' : Udps} {a : Act} {o : Answer} {u : Port}

theorem arrivedAt_of_quiet (h : Quiet u a) : arrivedAt u ⟨σ, a, o, σ'⟩ = [] := by
  unfold arrivedAt
  split
  · rename_i u' bytes room junk hact
    dsimp only at hact
    subst hact
    cases bytes with
    | nil => split <;> rfl
    | cons d ds => exact if_neg h
  · rfl

theorem returnedBy_of_quiet (h : Quiet u a) : returnedBy u ⟨σ, a, o, σ'⟩ = [] := by
  unfold returnedBy
  split
  · rename_i id length room r bytes hact hout
    dsimp only at hact
    subst hact
    exact if_neg h
  · rfl

theorem fits_of_quiet (h : Quiet u a) : Fits u ⟨σ, a, o, σ'⟩ := by
  constructor
  · rintro d ds room junk rfl
    exact absurd rfl h
  · rintro id length room rfl hid
    exact absurd hid h

/-- A step at another port. -/
theorem effect_of_ne {v : Port} (hv : v ≠ u) (p : UartDrvUdp) (ho : o ≠ .fault u) :
    Effect u (σ u) a o (Function.update σ v p u) := by
  rw [Function.update_of_ne (Ne.symm hv)]
  exact .same ho

/-- **A step, as one port sees it.** -/
theorem step_effect (hs : step σ a = some (σ', o)) (u : Port) : Effect u (σ u) a o (σ' u) := by
  cases a with
  | setup id ret =>
    simp only [step] at hs
    split at hs
    · cases hs
      exact .same (by simp)
    · rename_i v hid
      cases hs
      by_cases hv : v = u
      · subst hv
        rw [Function.update_self]
        exact .setup hid
      · exact effect_of_ne hv _ (by simp)
  | recv v data room junk =>
    simp only [step, Option.ite_none_right_eq_some] at hs
    obtain ⟨hreceiving, hs⟩ := hs
    by_cases hv : v = u
    · subst hv
      split at hs
      · rename_i hnone
        cases hs
        exact .recvFault hnone
      · rename_i p hrecv
        cases hs
        rw [Function.update_self]
        exact .recv hreceiving hrecv (by simp)
      · rename_i p n hrecv
        cases hs
        rw [Function.update_self]
        exact .recv hreceiving hrecv (by simp)
    · split at hs
      · cases hs
        exact .same (by simpa using hv)
      · cases hs
        exact effect_of_ne hv _ (by simp)
      · cases hs
        exact effect_of_ne hv _ (by simp)
  | read id length room =>
    simp only [step] at hs
    split at hs
    · cases hs
      exact .same (by simp)
    · rename_i v hid
      by_cases hv : v = u
      · subst hv
        split at hs
        · rename_i hnone
          cases hs
          exact .readFault hid hnone
        · rename_i p bytes hread
          cases hs
          rw [Function.update_self]
          exact .read hid hread
      · split at hs
        · cases hs
          exact .same (by simpa using hv)
        · cases hs
          exact effect_of_ne hv _ (by simp)
  | write id data =>
    simp only [step] at hs
    split at hs
    · cases hs
      exact .same (by simp)
    · cases hs
      exact .same (by simp)
  | close id =>
    simp only [step, uartCloseUdp, Function.update_eq_self] at hs
    split at hs
    · cases hs
      exact .same (by simp)
    · cases hs
      exact .same (by simp)

/-- A step that does not concern a port leaves its buffer alone. -/
theorem step_of_quiet (hs : step σ a = some (σ', o)) (h : Quiet u a) :
    (σ' u).buffer = (σ u).buffer ∧ o ≠ .fault u := by
  have hnothing : ∀ {p : UartDrvUdp} {data : Option (List UInt8)} {room : Bool}
      {junk : Nat → UInt8}, Quiet u (.recv u data room junk) →
      uartUdpRecvCb p data room junk = some (p, none) := by
    -- an error, or an empty datagram
    intro p data room junk hquiet
    rcases data with - | ⟨- | ⟨d, ds⟩⟩
    · rfl
    · rfl
    · exact absurd rfl hquiet
  have heffect := step_effect hs u
  generalize σ' u = p' at heffect ⊢
  cases heffect with
  | same ho => exact ⟨rfl, ho⟩
  | setup hid =>
    refine ⟨?_, by simp⟩
    unfold uartSetupUdp
    split <;> rfl
  | recv _ hrecv ho =>
    rw [hnothing h, Option.some.injEq, Prod.mk.injEq] at hrecv
    exact ⟨by rw [← hrecv.1], ho⟩
  | read hid _ => exact absurd hid h
  | recvFault hnone =>
    rw [hnothing h] at hnone
    cases hnone
  | readFault hid _ => exact absurd hid h

/-- A datagram, in terms of `uart_udp_recv_cb`. -/
theorem step_recv {d : UInt8} {ds : List UInt8} {room : Bool} {junk : Nat → UInt8}
    (hs : step σ (.recv u (some (d :: ds)) room junk) = some (σ', o)) :
    (uartUdpRecvCb (σ u) (some (d :: ds)) room junk = none ∧ σ' = σ ∧ o = .fault u) ∨
      ∃ n, uartUdpRecvCb (σ u) (some (d :: ds)) room junk = some (σ' u, n) ∧ o ≠ .fault u := by
  simp only [step, Option.ite_none_right_eq_some] at hs
  obtain ⟨-, hs⟩ := hs
  split at hs
  · rename_i hnone
    cases hs
    exact Or.inl ⟨hnone, rfl, rfl⟩
  · rename_i p hsome
    cases hs
    exact Or.inr ⟨none, by rw [Function.update_self, hsome], by simp⟩
  · rename_i p n hsome
    cases hs
    exact Or.inr ⟨some n, by rw [Function.update_self, hsome], by simp⟩

/-- A read, in terms of `uart_read_udp`. -/
theorem step_read {id : Int} {length : Nat} {room : Bool} (hid : portOf id = some u)
    (hs : step σ (.read id length room) = some (σ', o)) :
    (uartReadUdp (σ u) length room = none ∧ σ' = σ ∧ o = .fault u) ∨
      ∃ bytes, uartReadUdp (σ u) length room = some (σ' u, bytes) ∧
        o = .got (toInt bytes.length) bytes := by
  simp only [step, hid] at hs
  split at hs
  · rename_i hnone
    cases hs
    exact Or.inl ⟨hnone, rfl, rfl⟩
  · rename_i p bytes hsome
    cases hs
    exact Or.inr ⟨bytes, by rw [Function.update_self, hsome], rfl⟩

end

/-! ## How much is lost -/

/-- There are as many bytes behind `recv_buff` as `recv_len` says, and maybe more. -/
def Sane (p : UartDrvUdp) : Prop :=
  match p.recvBuff with
  | none => p.recvLen = 0
  | some b => 0 < p.recvLen ∧ p.recvLen ≤ b.length

/-- The bytes that arrive for port `u` while it has a buffer. -/
def appendedAt (u : Port) (e : Trans) : List UInt8 :=
  match (e.src u).recvBuff with
  | none => []
  | some _ => arrivedAt u e

theorem Sane.length_unread {p : UartDrvUdp} (h : Sane p) : p.unread.length = p.recvLen := by
  unfold UartDrvUdp.unread
  cases hb : p.recvBuff with
  | none =>
    simp only [Sane, hb] at h
    simp [h]
  | some b =>
    simp only [Sane, hb] at h
    simpa using h.2

theorem Sane.of_buffer {p p' : UartDrvUdp} (h : Sane p) (heq : p'.buffer = p.buffer) :
    Sane p' := by
  obtain ⟨hbuff, hlen⟩ := Prod.mk.inj heq
  unfold Sane
  rw [hbuff, hlen]
  exact h

theorem appendedAt_of_arrivedAt {u : Port} {e : Trans} (h : arrivedAt u e = []) :
    appendedAt u e = [] := by
  unfold appendedAt
  split
  · rfl
  · exact h

/-- A datagram either becomes the buffer, or `recv_len` does not count it. -/
theorem Sane.recv {p p' : UartDrvUdp} (h : Sane p) {d : UInt8} {ds : List UInt8}
    {junk : Nat → UInt8} {n : Option Nat}
    (hr : uartUdpRecvCb p (some (d :: ds)) true junk = some (p', n)) :
    Sane p' ∧ p'.recvLen = if p.recvBuff = none then (d :: ds).length else p.recvLen := by
  cases hb : p.recvBuff with
  | none =>
    simp only [uartUdpRecvCb, hb, if_true, Option.some.injEq, Prod.mk.injEq] at hr
    obtain ⟨rfl, -⟩ := hr
    exact ⟨⟨by simp, le_rfl⟩, rfl⟩
  | some b =>
    simp only [Sane, hb] at h
    have hfits : p.recvLen + (d :: ds).length ≤
        (realloc b (p.recvLen + (d :: ds).length) junk).length := by
      rw [length_realloc]
    simp only [uartUdpRecvCb, hb, if_true, store_of_le hfits, Option.map_some, Option.some.injEq,
      Prod.mk.injEq] at hr
    obtain ⟨rfl, -⟩ := hr
    refine ⟨⟨h.1, ?_⟩, rfl⟩
    show p.recvLen ≤ List.length (overwrite _ _ _)
    rw [length_overwrite hfits, length_realloc]
    omega

/-- A read takes off `recv_len` what it returns. -/
theorem Sane.read {p p' : UartDrvUdp} (h : Sane p) {length : Nat} {bytes : List UInt8}
    (hr : uartReadUdp p length true = some (p', bytes)) :
    Sane p' ∧ bytes.length + p'.recvLen = p.recvLen := by
  unfold uartReadUdp at hr
  split at hr
  · cases hr
    exact ⟨h, by simp⟩
  · split at hr
    · cases hr
      exact ⟨h, by simp⟩
    · cases hb : p.recvBuff with
      | none =>
        rw [hb] at hr
        exact absurd hr (by simp)
      | some b =>
        simp only [Sane, hb] at h
        simp only [hb] at hr
        set n := if length > p.recvLen then p.recvLen else length with hn
        have hle : n ≤ p.recvLen := by
          rw [hn]
          split <;> omega
        split at hr
        · exact absurd hr (by simp)
        · split at hr
          · split at hr
            · exact absurd hr (by simp)
            · -- a part is read
              rename_i hpart hblock
              simp only [if_true, Option.some.injEq, Prod.mk.injEq] at hr
              obtain ⟨rfl, rfl⟩ := hr
              refine ⟨⟨Nat.sub_pos_of_lt hpart, ?_⟩, ?_⟩
              · simp [overwrite]
                omega
              · simp only [List.length_take]
                omega
          · -- all is read
            rename_i hall
            cases hr
            refine ⟨rfl, ?_⟩
            simp only [List.length_take]
            omega

/-- **One step of the accounts**: what arrives is returned, is still there or is lost. -/
theorem step_account {σ σ' : Udps} {a : Act} {o : Answer} {u : Port}
    (hs : step σ a = some (σ', o)) (hsane : Sane (σ u)) (hroom : RoomOk u ⟨σ, a, o, σ'⟩)
    (hfault : ¬ Faults u ⟨σ, a, o, σ'⟩) :
    Sane (σ' u) ∧ (returnedBy u ⟨σ, a, o, σ'⟩).length + (σ' u).recvLen +
      (appendedAt u ⟨σ, a, o, σ'⟩).length = (σ u).recvLen + (arrivedAt u ⟨σ, a, o, σ'⟩).length := by
  by_cases hq : Quiet u a
  · obtain ⟨hbuffer, -⟩ := step_of_quiet hs hq
    have hlen : (σ' u).recvLen = (σ u).recvLen := congrArg Prod.snd hbuffer
    refine ⟨hsane.of_buffer hbuffer, ?_⟩
    rw [appendedAt_of_arrivedAt (arrivedAt_of_quiet hq), arrivedAt_of_quiet hq,
      returnedBy_of_quiet hq, hlen]
    simp
  · obtain ⟨d, ds, room, junk, rfl⟩ | ⟨id, length, room, rfl, hid⟩ := not_quiet_cases hq
    · obtain rfl := hroom.recv _ _ _ rfl
      obtain ⟨-, -, ho⟩ | ⟨n, hr, -⟩ := step_recv hs
      · exact absurd ho hfault
      · obtain ⟨hsane', hlen⟩ := hsane.recv hr
        refine ⟨hsane', ?_⟩
        cases hb : (σ u).recvBuff with
        | none =>
          simp only [Sane, hb] at hsane
          simp [returnedBy, arrivedAt, appendedAt, hb, hlen, hsane]
        | some b => simp [returnedBy, arrivedAt, appendedAt, hb, hlen]
    · obtain rfl := hroom.read _ _ _ rfl hid
      obtain ⟨-, -, ho⟩ | ⟨bytes, hr, rfl⟩ := step_read hid hs
      · exact absurd ho hfault
      · obtain ⟨hsane', hlen⟩ := hsane.read hr
        refine ⟨hsane', ?_⟩
        rw [appendedAt_of_arrivedAt rfl]
        simpa [returnedBy, arrivedAt, hid] using hlen

/-- **The accounts of a run** without faults. -/
theorem account {tr : List Trans} {σ : Udps} (h : Run machine tr σ) {u : Port}
    (hroom : ∀ e ∈ tr, RoomOk u e) (hfault : ∀ e ∈ tr, ¬ Faults u e) :
    Sane (σ u) ∧ (returned u tr).length + (σ u).recvLen + (tr.flatMap (appendedAt u)).length =
      (arrived u tr).length := by
  refine h.toPath.history_invariant (C := fun e => RoomOk u e ∧ ¬ Faults u e)
    (I := fun tr σ => Sane (σ u) ∧ (returned u tr).length + (σ u).recvLen +
      (tr.flatMap (appendedAt u)).length = (arrived u tr).length) ?_ ?_ ?_
  · intro e he
    exact ⟨hroom e he, hfault e he⟩
  · exact ⟨rfl, rfl⟩
  · rintro tr σ a σ' o ⟨hsane, hsum⟩ hs ⟨hr, hf⟩
    obtain ⟨hsane', hstep⟩ := step_account hs hsane hr hf
    refine ⟨hsane', ?_⟩
    simp only [returned, arrived, List.flatMap_append, List.flatMap_singleton,
      List.length_append] at hsum ⊢
    omega

/-- If nothing is lost, every datagram found no buffer. -/
theorem arrivalFits_of_appendedAt {u : Port} {e : Trans} (h : appendedAt u e = []) :
    ArrivalFits u e := by
  intro d ds room junk hact
  unfold appendedAt at h
  cases hb : (e.src u).recvBuff with
  | none => rfl
  | some b =>
    rw [hb] at h
    simp [arrivedAt, hact] at h

/-! ## Where everything fits -/

/-- A buffer of which all is to be read. -/
abbrev UartDrvUdp.Holds (p : UartDrvUdp) (xs : List UInt8) : Prop :=
  Buffered p.recvBuff p.recvLen xs

namespace UartDrvUdp.Holds

variable {p p' : UartDrvUdp} {xs : List UInt8}

theorem of_buffer (h : p.Holds xs) (heq : p'.buffer = p.buffer) : p'.Holds xs :=
  ⟨(congrArg Prod.fst heq).trans h.buff_eq, (congrArg Prod.snd heq).trans h.size_eq⟩

theorem unread_eq (h : p.Holds xs) : p.unread = xs := by
  rw [UartDrvUdp.unread, h.getD_buff, h.size_eq, List.take_length]

/-- A read that asks for all there is. -/
theorem read_all (h : p.Holds xs) (hstate : p.state = true) {length : Nat}
    (hlen : p.recvLen ≤ length) (room : Bool) :
    ∃ p', uartReadUdp p length room = some (p', xs) ∧ p'.Holds [] := by
  cases hb : p.recvBuff with
  | none =>
    have hzero : p.recvLen = 0 := h.buff_eq_none_iff.1 hb
    refine ⟨p, by simp [uartReadUdp, hstate, hzero, h.eq_nil hb], ?_⟩
    show Buffered p.recvBuff p.recvLen []
    rw [hb, hzero]
    exact Buffered.nil
  | some b =>
    have hsize := h.size_eq
    obtain ⟨rfl, hne⟩ := h.of_some hb
    have hpos : p.recvLen ≠ 0 := by
      rw [hsize]
      simpa using hne
    have hall : (if length > p.recvLen then p.recvLen else length) = xs.length := by
      split <;> omega
    refine ⟨{ p with recvBuff := none, recvLen := 0 }, ?_, Buffered.nil⟩
    simp only [uartReadUdp, hstate, hb, hall]
    rw [if_neg (by simp), if_neg hpos, if_neg (lt_irrefl _), if_neg (by omega), List.take_length]

/-- A read that asks for less moves bytes from behind the block. -/
theorem read_part (h : p.Holds xs) (hstate : p.state = true) {length : Nat}
    (hlen : length < p.recvLen) (room : Bool) : uartReadUdp p length room = none := by
  cases hb : p.recvBuff with
  | none =>
    have hzero : p.recvLen = 0 := h.buff_eq_none_iff.1 hb
    omega
  | some b =>
    have hsize := h.size_eq
    obtain ⟨rfl, -⟩ := h.of_some hb
    have hpart : (if length > p.recvLen then p.recvLen else length) = length := by
      split <;> omega
    have hbehind : xs.length < p.recvLen + (p.recvLen - length) := by omega
    simp only [uartReadUdp, hstate, hb, hpart]
    rw [if_neg (by simp), if_neg (by omega), if_neg (by omega), if_pos hlen, if_pos hbehind]

end UartDrvUdp.Holds

/-- **One step from a buffer of which all is to be read**, if a datagram fits: it goes
wrong unless a read fits, too; and then it takes off the front what it returns and puts
behind what arrives. -/
theorem step_holds {σ σ' : Udps} {a : Act} {o : Answer} {u : Port} {xs : List UInt8}
    (hs : step σ a = some (σ', o)) (hx : (σ u).Holds xs) (hroom : RoomOk u ⟨σ, a, o, σ'⟩)
    (harrival : ArrivalFits u ⟨σ, a, o, σ'⟩) :
    (¬ Faults u ⟨σ, a, o, σ'⟩ ↔ ReadFits u ⟨σ, a, o, σ'⟩) ∧
      (ReadFits u ⟨σ, a, o, σ'⟩ → ∃ ys, (σ' u).Holds ys ∧
        returnedBy u ⟨σ, a, o, σ'⟩ ++ ys = xs ++ arrivedAt u ⟨σ, a, o, σ'⟩) := by
  by_cases hq : Quiet u a
  · obtain ⟨hbuffer, hok⟩ := step_of_quiet hs hq
    refine ⟨iff_of_true hok (fits_of_quiet hq).2, fun _ => ⟨xs, hx.of_buffer hbuffer, ?_⟩⟩
    rw [returnedBy_of_quiet hq, arrivedAt_of_quiet hq, List.append_nil, List.nil_append]
  obtain ⟨d, ds, room, junk, rfl⟩ | ⟨id, length, room, rfl, hid⟩ := not_quiet_cases hq
  · -- a datagram becomes the buffer
    obtain rfl := hroom.recv _ _ _ rfl
    have hnull : (σ u).recvBuff = none := harrival _ _ _ _ rfl
    have hnil : xs = [] := hx.eq_nil hnull
    have hread : ReadFits u ⟨σ, .recv u (some (d :: ds)) true junk, o, σ'⟩ := by
      rintro id length room hact
      cases hact
    obtain ⟨hr, -, -⟩ | ⟨n, hr, hok⟩ := step_recv hs
    · simp [uartUdpRecvCb, hnull] at hr
    · refine ⟨iff_of_true hok hread, fun _ => ⟨d :: ds, ?_, by simp [returnedBy, arrivedAt, hnil]⟩⟩
      simp only [uartUdpRecvCb, hnull, if_true, Option.some.injEq, Prod.mk.injEq] at hr
      show Buffered (σ' u).recvBuff (σ' u).recvLen (d :: ds)
      rw [← hr.1]
      exact Buffered.of_ne_nil (by simp)
  · have hread : ReadFits u ⟨σ, .read id length room, o, σ'⟩ ↔
        ((σ u).state = true → (σ u).recvLen ≤ length) := by
      constructor
      · intro hfits
        exact hfits id length room rfl hid
      · rintro hfits id' length' room' hact - hstate
        cases hact
        exact hfits hstate
    rw [hread]
    cases hstate : (σ u).state with
    | false =>
      -- the port is not set up
      have hnone : uartReadUdp (σ u) length room = some (σ u, []) := by simp [uartReadUdp, hstate]
      obtain ⟨hr, -⟩ | ⟨bytes, hr, rfl⟩ := step_read hid hs
      · exact absurd (hnone.symm.trans hr) (by simp)
      · rw [hnone, Option.some.injEq, Prod.mk.injEq] at hr
        obtain ⟨hsame, rfl⟩ := hr
        refine ⟨by simp [Faults], fun _ => ⟨xs, hsame ▸ hx, by simp [returnedBy, arrivedAt]⟩⟩
    | true =>
      by_cases hlen : (σ u).recvLen ≤ length
      · obtain ⟨p', hall, hp'⟩ := hx.read_all hstate hlen room
        obtain ⟨hr, -⟩ | ⟨bytes, hr, rfl⟩ := step_read hid hs
        · exact absurd (hall.symm.trans hr) (by simp)
        · rw [hall, Option.some.injEq, Prod.mk.injEq] at hr
          obtain ⟨rfl, rfl⟩ := hr
          refine ⟨by simp [Faults, hlen], fun _ => ⟨[], hp', ?_⟩⟩
          simp [returnedBy, arrivedAt, hid]
      · have hpart := hx.read_part hstate (not_le.1 hlen) room
        obtain ⟨-, -, rfl⟩ | ⟨bytes, hr, -⟩ := step_read hid hs
        · exact ⟨by simp [Faults, hlen], fun hfits => absurd (hfits rfl) hlen⟩
        · exact absurd (hpart.symm.trans hr) (by simp)

/-- **The input of a serial port over UDP**, if allocations succeed: the port never
leaves its block, and the bytes read followed by those to be read are the ones that
arrived, if and only if every datagram finds no buffer and every read asks for all there
is. -/
theorem udp_uart_stream {tr : List Trans} {σ : Udps} (h : Run machine tr σ) {u : Port}
    (hroom : ∀ e ∈ tr, RoomOk u e) :
    ((∀ e ∈ tr, ¬ Faults u e) ∧ returned u tr ++ (σ u).unread = arrived u tr) ↔
      ∀ e ∈ tr, Fits u e := by
  have hempty : (machine.init u).Holds [] := Buffered.nil
  -- once datagrams fit, to go wrong and not to fit come to the same
  have hreads : (∀ e ∈ tr, ArrivalFits u e) →
      ((∀ e ∈ tr, ¬ Faults u e) ↔ ∀ e ∈ tr, ReadFits u e) := by
    intro harrivals
    apply h.toPath.forall_iff (P := fun σ => ∃ xs, (σ u).Holds xs)
      (C := fun e => RoomOk u e ∧ ArrivalFits u e) _ ⟨[], hempty⟩
    · rintro σ a σ' o ⟨xs, hx⟩ hs ⟨hr, ha⟩
      exact (step_holds hs hx hr ha).1
    · rintro σ a σ' o ⟨xs, hx⟩ hs ⟨hr, ha⟩ hok
      obtain ⟨hiff, hput⟩ := step_holds hs hx hr ha
      obtain ⟨ys, hys, -⟩ := hput (hiff.1 hok)
      exact ⟨ys, hys⟩
    · intro e he
      exact ⟨hroom e he, harrivals e he⟩
  constructor
  · rintro ⟨hok, hlaw⟩
    -- the lengths leave nothing for the datagrams that found a buffer
    obtain ⟨hsane, hsum⟩ := account h hroom hok
    have hlen := congrArg List.length hlaw
    rw [List.length_append, hsane.length_unread] at hlen
    have hnone : tr.flatMap (appendedAt u) = [] := List.length_eq_zero_iff.1 (by omega)
    have harrivals : ∀ e ∈ tr, ArrivalFits u e := by
      intro e he
      exact arrivalFits_of_appendedAt (List.flatMap_eq_nil_iff.1 hnone e he)
    intro e he
    exact ⟨harrivals e he, (hreads harrivals).1 hok e he⟩
  · intro hfits
    refine ⟨(hreads fun e he => (hfits e he).1).2 fun e he => (hfits e he).2, ?_⟩
    have hfifo : ∃ ys, (σ u).Holds ys ∧ tr.flatMap (returnedBy u) ++ ys =
        [] ++ tr.flatMap (arrivedAt u) := by
      apply h.toPath.fifo (R := fun σ xs => (σ u).Holds xs)
        (C := fun e => RoomOk u e ∧ Fits u e) _ hempty
      · intro σ a σ' o xs hx hs hC
        exact (step_holds hs hx hC.1 hC.2.1).2 hC.2.2
      · intro e he
        exact ⟨hroom e he, hfits e he⟩
    obtain ⟨ys, hys, hlaw⟩ := hfifo
    rw [hys.unread_eq]
    exact hlaw

/-- Port 1 is read to the end before the next datagram comes. -/
def fitOps : List Act :=
  [.setup 1 0, .recv 1 (some [1, 2, 3]) true fun _ => 0, .read 1 16 true,
    .recv 1 (some [4]) true fun _ => 0]

theorem udp_uart_stream_fit :
    (∀ e ∈ machine.traceOf fitOps, ¬ Faults 1 e) ∧
      returned 1 (machine.traceOf fitOps) ++ (machine.stateOf fitOps 1).unread =
        arrived 1 (machine.traceOf fitOps) := by
  -- the port is empty when a datagram comes and never holds more than is asked for
  have hempty : ∀ e ∈ machine.traceOf fitOps, arrivedAt 1 e = [] ∨ (e.src 1).recvBuff = none := by
    decide +kernel
  have hlen : ∀ e ∈ machine.traceOf fitOps, (e.src 1).recvLen ≤ 16 := by decide +kernel
  refine (udp_uart_stream (Machine.run_exec (by decide +kernel)) ?_).2 ?_
  · intro e he
    have hmem := Machine.act_mem_of_mem_traceOf he
    constructor
    · intro data room junk hact
      rw [hact] at hmem
      simp only [fitOps, List.mem_cons, Act.recv.injEq, reduceCtorEq, List.not_mem_nil, or_false,
        false_or] at hmem
      rcases hmem with h | h <;> exact h.2.2.1
    · intro id length room hact _
      rw [hact] at hmem
      simp only [fitOps, List.mem_cons, Act.read.injEq, reduceCtorEq, List.not_mem_nil, or_false,
        false_or] at hmem
      exact hmem.2.2
  · intro e he
    constructor
    · intro d ds room junk hact
      refine (hempty e he).resolve_left ?_
      simp [arrivedAt, hact]
    · intro id length room hact _ _
      have hmem := Machine.act_mem_of_mem_traceOf he
      rw [hact] at hmem
      simp only [fitOps, List.mem_cons, Act.read.injEq, reduceCtorEq, List.not_mem_nil, or_false,
        false_or] at hmem
      rw [hmem.2.1]
      exact hlen e he

/-- Two datagrams come before port 1 is read. -/
def appendOps : List Act :=
  [.setup 1 0, .recv 1 (some [1, 2, 3]) true fun _ => 0, .recv 1 (some [4, 5]) true fun _ => 0,
    .read 1 16 true]

/-- One byte is read of a datagram of two. -/
def partOps : List Act := [.setup 1 0, .recv 1 (some [1, 2]) true fun _ => 0, .read 1 1 true]

/-- In the first run the second datagram is lost; in the second a read moves bytes from
behind the block. -/
theorem udp_uart_loses_input :
    (Run machine (machine.traceOf appendOps) (machine.stateOf appendOps) ∧
      arrived 1 (machine.traceOf appendOps) = [1, 2, 3, 4, 5] ∧
      returned 1 (machine.traceOf appendOps) = [1, 2, 3] ∧
      (machine.stateOf appendOps 1).unread = []) ∧
    Run machine (machine.traceOf partOps) (machine.stateOf partOps) ∧
      ∃ e ∈ machine.traceOf partOps, Faults 1 e := by
  have h2 : 2 < (machine.traceOf partOps).length := by decide +kernel
  refine ⟨⟨Machine.run_exec (by decide +kernel), by decide +kernel, by decide +kernel,
    by decide +kernel⟩, Machine.run_exec (by decide +kernel), (machine.traceOf partOps)[2], ?_, ?_⟩
  · exact List.getElem_mem h2
  · rfl

end LuatosPc.Uart.Udp
