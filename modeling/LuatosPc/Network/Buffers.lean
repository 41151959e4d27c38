import LuatosPc.Network.Tags

/-!
# The receive buffers of a slot

`recv_buff`, `recv_size` and `udp_data` are written by the two read callbacks, by
`libuv_socket_receive` and by `libuv_socket_clean`, and by nothing else.

* `Rx`, `UvConn.rx` — what a slot has received and not yet handed out.
* `NoTraffic` — an action that is none of these four for the slot in question.
* `traffic_cases` — the four; `step_rx_of_noTraffic` — any other action leaves what
  the slot has received alone.
-/

namespace LuatosPc
namespace Libuv

open Adapter

variable {β : Type}

/-- The fields of a slot for received data. -/
structure Rx (β : Type) where
  recvBuff : Option (List β)
  recvSize : Nat
  udpData : List (UdpData β)

/-- What a slot has received and not yet handed out. -/
def UvConn.rx (c : UvConn β) : Rx β := ⟨c.recvBuff, c.recvSize, c.udpData⟩

/-- `libuv_socket_clean` of this list empties the slot. -/
def Cleans (σ : Adapter β) (s : Slot) (list : List Int) : Prop :=
  (∃ id ∈ list, slotOf id = some s) ∧
    ((σ.sockets s).tag = 0 ∨ (σ.sockets s).state = .closed)

/-- The action neither brings data to slot `s` nor takes data from it. -/
def NoTraffic (σ : Adapter β) (s : Slot) : Op β → Prop
  | .onRecv s' (.data (_ :: _)) _ _ => s' ≠ s
  | .onRecvUdp s' (some _) _ _ => s' ≠ s
  | .receive id tag true _ => σ.checkSocketId id tag ≠ some s
  | .clean list => ¬ Cleans σ s list
  | _ => True

/-- An action that is not without traffic for the slot, case by case. -/
theorem traffic_cases {σ : Adapter β} {s : Slot} {op : Op β} (h : ¬ NoTraffic σ s op) :
    (∃ b bs room posted, op = .onRecv s (.data (b :: bs)) room posted) ∨
    (∃ d room posted, op = .onRecvUdp s (some d) room posted) ∨
    (∃ id tag len, op = .receive id tag true len ∧ σ.checkSocketId id tag = some s) ∨
    ∃ list, op = .clean list ∧ Cleans σ s list := by
  unfold NoTraffic at h
  split at h
  · obtain rfl := not_not.1 h
    exact .inl ⟨_, _, _, _, rfl⟩
  · obtain rfl := not_not.1 h
    exact .inr (.inl ⟨_, _, _, rfl⟩)
  · exact .inr (.inr (.inl ⟨_, _, _, rfl, not_not.1 h⟩))
  · exact .inr (.inr (.inr ⟨_, rfl, not_not.1 h⟩))
  · exact absurd trivial h

namespace Adapter

/-- A write that keeps what a slot has received. -/
theorem rx_modify_of_frame (σ : Adapter β) (s s' : Slot) {f : UvConn β → UvConn β}
    (hf : ∀ c, (f c).rx = c.rx) : ((σ.modify s f).sockets s').rx = (σ.sockets s').rx := by
  rw [modify_sockets]
  split
  · rename_i h
    subst h
    exact hf _
  · rfl

/-- A write to another slot. -/
theorem rx_modify_of_ne (σ : Adapter β) {s s' : Slot} (f : UvConn β → UvConn β) (h : s ≠ s') :
    ((σ.modify s f).sockets s').rx = (σ.sockets s').rx := by
  rw [modify_sockets, if_neg (Ne.symm h)]

@[simp] theorem rx_setSocketState (σ : Adapter β) (s s' : Slot) (st : SocketState) :
    ((σ.setSocketState s st).sockets s').rx = (σ.sockets s').rx :=
  rx_modify_of_frame _ _ _ fun _ => rfl

@[simp] theorem rx_clearTag (σ : Adapter β) (s s' : Slot) :
    ((σ.clearTag s).sockets s').rx = (σ.sockets s').rx :=
  rx_modify_of_frame _ _ _ fun _ => rfl

theorem rx_create (σ : Adapter β) (isTcp : Bool) (param : Nat) (isIpv6 : Bool) (s' : Slot) :
    ((σ.libuvCreateSocket isTcp param isIpv6).1.sockets s').rx = (σ.sockets s').rx := by
  cases hf : σ.findFree with
  | none =>
    rw [libuvCreateSocket_of_none hf]
  | some s =>
    rw [(libuvCreateSocket_of_some hf isTcp param isIpv6).2 s']
    split
    · rename_i h
      subst h
      rfl
    · rfl

theorem rx_closeSocket (σ : Adapter β) (s s' : Slot) (ret : Int) :
    ((σ.closeSocket s ret).1.sockets s').rx = (σ.sockets s').rx := by
  have hstop : ((σ.modify s fun c => { c with udp := { c.udp with reading := false } }).sockets
      s').rx = (σ.sockets s').rx := rx_modify_of_frame _ _ _ fun _ => rfl
  unfold closeSocket
  split <;> split <;> simp [hstop]

/-- A request to libuv. -/
theorem rx_requests {σ σ' : Adapter β} (h : σ.Requests σ') (s' : Slot) :
    (σ'.sockets s').rx = (σ.sockets s').rx := by
  cases h with
  | refused => rfl
  | connect c s => rw [rx_setSocketState, submit_sockets]
  | close s ret => exact rx_closeSocket σ s s' ret
  | forceClose s ret => rw [rx_clearTag, rx_closeSocket]
  | send c => rw [submit_sockets]

/-- Cleaning slots other than `s`, or a slot that is in use. -/
theorem clean_sockets_of_not_cleans (list : List Int) {σ : Adapter β} {s : Slot}
    (h : ¬ Cleans σ s list) : (σ.libuvSocketClean list).sockets s = σ.sockets s := by
  have hone : ∀ (τ : Adapter β) (id : Int), ¬ Cleans τ s [id] →
      (τ.cleanOne id).sockets s = τ.sockets s := by
    intro τ id hτ
    unfold cleanOne
    split
    · rfl
    · rename_i s' hid
      split
      · rename_i hrel
        rw [modify_sockets, if_neg]
        rintro rfl
        exact hτ ⟨⟨id, by simp, hid⟩, hrel⟩
      · rfl
  unfold libuvSocketClean
  induction list generalizing σ with
  | nil => rfl
  | cons id list ih =>
    -- the first round leaves the slot as it is, so the others find it as it was
    have hfirst : (σ.cleanOne id).sockets s = σ.sockets s := by
      apply hone
      rintro ⟨⟨i, hi, hs⟩, hrel⟩
      obtain rfl := List.mem_singleton.1 hi
      exact h ⟨⟨i, List.mem_cons_self, hs⟩, hrel⟩
    rw [List.foldl_cons, ih, hfirst]
    rintro ⟨⟨i, hi, hs⟩, hrel⟩
    rw [hfirst] at hrel
    exact h ⟨⟨i, List.mem_cons_of_mem _ hi, hs⟩, hrel⟩

theorem rx_onConnect (σ : Adapter β) (s s' : Slot) (status readRet : Int) (posted : Bool) :
    ((σ.onConnect s status readRet posted).sockets s').rx = (σ.sockets s').rx := by
  have htcp : ∀ τ : Adapter β, ((τ.modify s fun c =>
      { c with tcp := { c.tcp with reading := true } }).sockets s').rx = (τ.sockets s').rx :=
    fun τ => rx_modify_of_frame _ _ _ fun _ => rfl
  have hudp : ∀ τ : Adapter β, ((τ.modify s fun c =>
      { c with udp := { c.udp with reading := true } }).sockets s').rx = (τ.sockets s').rx :=
    fun τ => rx_modify_of_frame _ _ _ fun _ => rfl
  unfold onConnect
  dsimp only
  split
  · simp
  · split
    · simp
    · split
      · rw [htcp]; simp
      · rw [hudp]; simp

theorem rx_onClose (σ : Adapter β) (s s' : Slot) (posted : Bool) :
    ((σ.onClose s posted).sockets s').rx = (σ.sockets s').rx := by
  unfold onClose
  split <;> simp

theorem rx_onShutdown (σ : Adapter β) (s s' : Slot) (posted : Bool) :
    ((σ.onShutdown s posted).sockets s').rx = (σ.sockets s').rx := by
  unfold Adapter.onShutdown
  split <;> simp

theorem rx_onSent (σ : Adapter β) (s s' : Slot) (len : UInt32) (status : Int) (posted : Bool) :
    ((σ.onSent s len status posted).sockets s').rx = (σ.sockets s').rx := by
  unfold Adapter.onSent
  split <;> simp

@[simp] theorem rx_stopReading (σ : Adapter β) (s s' : Slot) (r : ReadResult β) :
    ((stopReading σ s r).sockets s').rx = (σ.sockets s').rx := by
  cases r with
  | eof =>
    unfold stopReading
    exact rx_modify_of_frame _ _ _ fun _ => rfl
  | error => rfl
  | data bytes => rfl

/-- A receive without a buffer changes nothing and hands out nothing. -/
theorem receive_null_eq {σ σ' : Adapter β} {id : Int} {tag : UInt64} {len : UInt32}
    {r : Received β} (h : σ.libuvSocketReceive id tag false len = some (σ', r)) :
    σ' = σ ∧ r.bytes = [] := by
  unfold libuvSocketReceive at h
  split at h
  · cases h
    exact ⟨rfl, rfl⟩
  · split at h
    · cases h
      exact ⟨rfl, rfl⟩
    · simp only [receiveUdp, if_true] at h
      split at h <;> (cases h; exact ⟨rfl, rfl⟩)

theorem rx_receive_of_noTraffic {σ σ' : Adapter β} {id : Int} {tag : UInt64} {buf : Bool}
    {len : UInt32} {r : Received β} {s : Slot}
    (h : σ.libuvSocketReceive id tag buf len = some (σ', r))
    (hq : NoTraffic σ s (.receive id tag buf len)) : (σ'.sockets s).rx = (σ.sockets s).rx := by
  cases buf with
  | false => rw [(receive_null_eq h).1]
  | true =>
    have hne : σ.checkSocketId id tag ≠ some s := hq
    obtain ⟨rfl, -⟩ | ⟨s₁, n, hc, -, -, -, rfl⟩ | ⟨s₁, d, ds, n, hc, -, -, -, rfl⟩ :=
      libuvSocketReceive_cases h
    · rfl
    · exact rx_modify_of_ne _ _ fun heq => hne (heq ▸ hc)
    · exact rx_modify_of_ne _ _ fun heq => hne (heq ▸ hc)

/-- A read callback that brings no data to slot `s'`. -/
theorem rx_onRecv_of_noTraffic (σ : Adapter β) {s s' : Slot} {r : ReadResult β} (room posted : Bool)
    (hq : NoTraffic σ s' (.onRecv s r room posted)) :
    ((σ.onRecv s r room posted).sockets s').rx = (σ.sockets s').rx := by
  cases r with
  | eof =>
    simp only [onRecv]
    split
    · rfl
    · split <;> simp
  | error =>
    simp only [onRecv]
    split <;> simp
  | data bytes =>
    cases bytes with
    | nil => rfl
    | cons b bs =>
      have hne : s ≠ s' := hq
      simp only [onRecv]
      split
      · rw [cbToNwTask_sockets, rx_modify_of_ne _ _ hne]
      · split
        · rw [cbToNwTask_sockets, rx_modify_of_ne _ _ hne]
        · rw [cbToNwTask_sockets]

theorem rx_onRecvUdp_of_noTraffic (σ : Adapter β) {s s' : Slot} {d : Option (UdpData β)}
    (room posted : Bool) (hq : NoTraffic σ s' (.onRecvUdp s d room posted)) :
    ((σ.onRecvUdp s d room posted).sockets s').rx = (σ.sockets s').rx := by
  cases d with
  | none => rfl
  | some d =>
    have hne : s ≠ s' := hq
    simp only [onRecvUdp]
    split
    · rfl
    · split
      · rw [cbToNwTask_sockets, rx_modify_of_ne _ _ hne]
      · rfl

end Adapter

/-- **Whatever is none of the four** leaves what a slot has received alone. -/
theorem step_rx_of_noTraffic {σ σ' : Adapter β} {op : Op β} {o : Answer β} {s : Slot}
    (h : step σ op = some (σ', o)) (hq : NoTraffic σ s op) :
    (σ'.sockets s).rx = (σ.sockets s).rx := by
  cases op with
  | create isTcp param isIpv6 => cases h; exact rx_create ..
  | connect id tag ret => cases h; exact rx_requests (requests_connect ..) s
  | disconnect id tag ret => cases h; exact rx_requests (requests_disconnect ..) s
  | close id tag ret => cases h; exact rx_requests (requests_close ..) s
  | forceClose id ret => cases h; exact rx_requests (requests_forceClose ..) s
  | receive id tag buf len =>
    simp only [step, Option.map_eq_some_iff, Prod.mk.injEq] at h
    obtain ⟨⟨τ, r⟩, hr, rfl, -⟩ := h
    exact rx_receive_of_noTraffic hr hq
  | send id tag len ret => cases h; exact rx_requests (requests_send ..) s
  | check id tag => cases h; rfl
  | clean list => cases h; rw [clean_sockets_of_not_cleans list hq]
  | onConnect s₀ status readRet posted =>
    simp only [step] at h
    obtain ⟨-, rfl, -⟩ := fire_eq_some h
    exact rx_onConnect ..
  | udpConnectAsync s₀ readRet posted =>
    simp only [step] at h
    obtain ⟨-, rfl, -⟩ := fire_eq_some h
    exact rx_onConnect ..
  | onShutdown s₀ posted =>
    simp only [step] at h
    obtain ⟨-, rfl, -⟩ := fire_eq_some h
    exact rx_onShutdown ..
  | udpAsyncClose s₀ posted =>
    simp only [step] at h
    obtain ⟨-, rfl, -⟩ := fire_eq_some h
    exact rx_onClose ..
  | onSent s₀ len status posted =>
    simp only [step] at h
    obtain ⟨-, rfl, -⟩ := fire_eq_some h
    exact rx_onSent ..
  | onSentUdp s₀ len status posted =>
    simp only [step] at h
    obtain ⟨-, rfl, -⟩ := fire_eq_some h
    exact rx_onSent ..
  | onRecv s₀ r room posted =>
    obtain ⟨-, rfl, -⟩ := step_onRecv_eq_some h
    rw [rx_onRecv_of_noTraffic (stopReading σ s₀ r) room posted, rx_stopReading]
    cases r with
    | eof => trivial
    | error => trivial
    | data bytes => cases bytes <;> exact hq
  | onRecvUdp s₀ d room posted =>
    obtain ⟨-, rfl, -⟩ := step_onRecvUdp_eq_some h
    exact rx_onRecvUdp_of_noTraffic σ room posted hq

end Libuv
end LuatosPc
