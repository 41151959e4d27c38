import Mathlib

/-!
# The libuv network adapter: data and operations

A model of `port/network/luat_network_adapter_libuv.c`, the socket layer of the
simulator.  The adapter keeps a table of eight slots; a slot is handed out by
`libuv_create_socket` together with a fresh 64-bit tag, and the pair (slot, tag)
is what the owner uses from then on.  Everything that takes time is a libuv
request whose callback finds its slot by number only.

* `UvConn` — one slot of `sockets[]`; `Adapter` — the table, the two counters,
  the requests libuv still owes a callback for, and the events sent to the
  network task so far.
* `libuvCreateSocket` … `libuvSocketClean` — the operations of the adapter.
* `onConnect`, `onRecv`, `onRecvUdp`, `onClose`, `onShutdown`, `onSent` — its
  callbacks.

The adapter moves payload bytes without ever looking at them, so the model is
parametric in the type `β` of a byte: instantiated at bytes that carry their
origin it speaks about provenance.  Whatever libuv or the heap decides (return
values, statuses, whether an allocation succeeds) is an argument.
-/

namespace LuatosPc
namespace Libuv

/-- `MAX_SOCK_NUM`, the size of `sockets[]`. -/
abbrev maxSockNum : Nat := 8

instance : NeZero maxSockNum := ⟨by decide⟩

/-- An index into `sockets[]`. -/
abbrev Slot := Fin maxSockNum

/-- The `SC_*` enumeration. -/
inductive SocketState
  | idle
  | used
  | connecting
  | connected
  | closing
  | closed
  deriving DecidableEq, Repr, Inhabited

/-- Where libuv stands with a handle embedded in a slot.  libuv's protocol is
`uninit → active → closing → closed`, and only a handle that is `uninit` or
`closed` may be initialised. -/
inductive HandleLife
  | uninit
  | active
  /-- Passed to `uv_close`, the close callback has not run yet. -/
  | closing
  /-- The close callback has run. -/
  | closed
  deriving DecidableEq, Repr, Inhabited

/-- A `uv_tcp_t` or `uv_udp_t`: its life cycle and whether reading is started. -/
structure UvHandle where
  life : HandleLife
  reading : Bool
  deriving DecidableEq, Repr, Inhabited

/-- The part of a `struct sockaddr_in` that the adapter reads. -/
structure SockAddr where
  addr : UInt32
  port : UInt16
  deriving DecidableEq, Repr, Inhabited

/-- `uv_udp_data_t`: one received datagram; `len` is the length of `data`, and
`next` is the rest of the list it is in. -/
structure UdpData (β : Type) where
  addr : SockAddr
  data : List β
  deriving DecidableEq, Repr

/-- `uv_conn_t`, one slot of `sockets[]`.  The `data` fields of the embedded
requests and handles always hold the slot's own number and are left out. -/
structure UvConn (β : Type) where
  state : SocketState
  tag : UInt64
  tcp : UvHandle
  udp : UvHandle
  param : Nat
  recvBuff : Option (List β)
  recvSize : Nat
  udpData : List (UdpData β)
  isIpv6 : Bool
  isTcp : Bool

/-- The network events the socket operations send. -/
inductive EventId
  | socketError
  | socketTxOk
  | socketRxNew
  | socketCloseOk
  | socketRemoteClose
  | socketConnectOk
  deriving DecidableEq, Repr

/-- What `cb_to_nw_task` posts: the event, its slot (`Param1`) and length
(`Param2`), and the owner's parameter and tag as they are in the slot when the
event is made. -/
structure NwEvent where
  id : EventId
  slot : Slot
  param2 : Nat
  param : Nat
  tag : UInt64
  deriving DecidableEq, Repr

/-- A request libuv has accepted and whose callback has not run yet. -/
inductive Callback
  | onConnect (s : Slot)
  | udpConnectAsync (s : Slot)
  | onShutdown (s : Slot)
  | udpAsyncClose (s : Slot)
  | onSent (s : Slot) (len : UInt32)
  | onSentUdp (s : Slot) (len : UInt32)
  deriving DecidableEq, Repr

/-- The slot a callback will act on. -/
def Callback.slot : Callback → Slot
  | .onConnect s | .udpConnectAsync s | .onShutdown s | .udpAsyncClose s => s
  | .onSent s _ | .onSentUdp s _ => s

/-- The state of the adapter together with what libuv and the network task hold
of it. -/
structure Adapter (β : Type) where
  sockets : Slot → UvConn β
  nextSocketIndex : UInt8
  socketTagCounter : UInt64
  /-- The callbacks libuv still owes. -/
  pending : List Callback
  /-- The events sent to the network task, oldest first. -/
  events : List NwEvent

variable {β : Type}

/-- A slot of a table that is all zero. -/
def UvConn.zero : UvConn β where
  state := .idle
  tag := 0
  tcp := ⟨.uninit, false⟩
  udp := ⟨.uninit, false⟩
  param := 0
  recvBuff := none
  recvSize := 0
  udpData := []
  isIpv6 := false
  isTcp := false

/-- The free test of `libuv_create_socket`. -/
def UvConn.isFree (c : UvConn β) : Bool :=
  c.tag == 0 && (c.state == .idle || c.state == .closed)

/-- What `libuv_create_socket` makes of the slot it takes: the embedded handle
is initialised, and nothing else of the slot's data is touched. -/
def UvConn.allocate (c : UvConn β) (isTcp : Bool) (stag : UInt64) (param : Nat) (isIpv6 : Bool) :
    UvConn β :=
  { c with
    tcp := if isTcp then ⟨.active, false⟩ else c.tcp
    udp := if isTcp then c.udp else ⟨.active, false⟩
    tag := stag
    param := param
    isTcp := isTcp
    isIpv6 := isIpv6
    state := .used }

/-- What `libuv_socket_clean` does to a slot it finds released. -/
def UvConn.reset (c : UvConn β) : UvConn β :=
  { c with recvBuff := none, recvSize := 0, udpData := [], state := .idle }

/-- The statics of the file before the first call. -/
def Adapter.start : Adapter β where
  sockets := fun _ => .zero
  nextSocketIndex := 0
  socketTagCounter := 0xFAFB
  pending := []
  events := []

/-- The slot an `int socket_id` names, if it is in range. -/
def slotOf (socketId : Int) : Option Slot :=
  if h : 0 ≤ socketId ∧ socketId < 8 then some ⟨socketId.toNat, by unfold maxSockNum; omega⟩
  else none

/-- A `size_t` or `uint32_t` returned as an `int`. -/
def toCInt (n : Nat) : Int := Int.bmod n (2 ^ 32)

namespace Adapter

/-! ## Writing to the table -/

/-- Replace one slot. -/
def modify (σ : Adapter β) (s : Slot) (f : UvConn β → UvConn β) : Adapter β :=
  { σ with sockets := Function.update σ.sockets s (f (σ.sockets s)) }

/-- `set_socket_state`. -/
def setSocketState (σ : Adapter β) (s : Slot) (st : SocketState) : Adapter β :=
  σ.modify s fun c => { c with state := st }

/-- `sockets[s].tag = 0`. -/
def clearTag (σ : Adapter β) (s : Slot) : Adapter β :=
  σ.modify s fun c => { c with tag := 0 }

/-- libuv takes on a request. -/
def submit (σ : Adapter β) (c : Callback) : Adapter β :=
  { σ with pending := σ.pending ++ [c] }

/-- `cb_to_nw_task`: the event takes parameter and tag from the slot as it is
now.  `posted` says whether the message could be allocated and its async handle
initialised; otherwise the event is dropped. -/
def cbToNwTask (σ : Adapter β) (posted : Bool) (id : EventId) (s : Slot) (param2 : Nat) :
    Adapter β :=
  if posted then
    { σ with events := σ.events ++ [⟨id, s, param2, (σ.sockets s).param, (σ.sockets s).tag⟩] }
  else σ

/-! ## The operations -/

/-- `CHECK_SOCKET_ID`: the slot a call may go on with. -/
def checkSocketId (σ : Adapter β) (socketId : Int) (tag : UInt64) : Option Slot :=
  match slotOf socketId with
  | none => none
  | some s =>
    if (σ.sockets s).tag = 0 ∨ (σ.sockets s).state = .closed then none
    else if (σ.sockets s).tag ≠ tag then none
    else some s

/-- `libuv_socket_check`. -/
def libuvSocketCheck (σ : Adapter β) (socketId : Int) (tag : UInt64) : Int :=
  match slotOf socketId with
  | none => -1
  | some s => if (σ.sockets s).tag = tag then 0 else -1

/-- The slot the loop of `libuv_create_socket` looks at in round `iz`. -/
def probe (σ : Adapter β) (iz : Nat) : Slot :=
  ⟨(iz + σ.nextSocketIndex.toNat) % maxSockNum, Nat.mod_lt _ (by decide)⟩

/-- The first free slot in the order of the loop. -/
def findFree (σ : Adapter β) : Option Slot :=
  ((List.range maxSockNum).map σ.probe).find? fun s => (σ.sockets s).isFree

/-- `libuv_create_socket`: the slot (or -1) and the value stored in `*tag`.  The
tag is consumed even if no slot is free. -/
def libuvCreateSocket (σ : Adapter β) (isTcp : Bool) (param : Nat) (isIpv6 : Bool) :
    Adapter β × Int × Option UInt64 :=
  let stag := σ.socketTagCounter
  let σ₁ := { σ with socketTagCounter := σ.socketTagCounter + 1 }
  match σ₁.findFree with
  | none => (σ₁, -1, none)
  | some s =>
    let σ₂ := σ₁.modify s fun c => c.allocate isTcp stag param isIpv6
    ({ σ₂ with nextSocketIndex := UInt8.ofNat (s.val + 1) }, s.val, some stag)

/-- `libuv_socket_connect`.  `ret` is what `uv_tcp_connect` or `uv_async_send`
returns; the result of `uv_udp_bind` is only logged, and the addresses go to
libuv. -/
def libuvSocketConnect (σ : Adapter β) (socketId : Int) (tag : UInt64) (ret : Int) :
    Adapter β × Int :=
  match σ.checkSocketId socketId tag with
  | none => (σ, -1)
  | some s =>
    if ret ≠ 0 then (σ, ret)
    else if (σ.sockets s).isTcp then
      ((σ.submit (.onConnect s)).setSocketState s .connecting, 0)
    else
      ((σ.submit (.udpConnectAsync s)).setSocketState s .connecting, 0)

/-- `close_socket`.  `ret` is what `uv_shutdown` or `uv_async_send` returns. -/
def closeSocket (σ : Adapter β) (s : Slot) (ret : Int) : Adapter β × Int :=
  if (σ.sockets s).isTcp then
    if ret ≠ 0 then (σ.setSocketState s .closed, ret) else (σ.submit (.onShutdown s), 0)
  else
    let σ₁ := σ.modify s fun c => { c with udp := { c.udp with reading := false } }
    if ret ≠ 0 then (σ₁.setSocketState s .closed, ret) else (σ₁.submit (.udpAsyncClose s), 0)

/-- `libuv_socket_disconnect`. -/
def libuvSocketDisconnect (σ : Adapter β) (socketId : Int) (tag : UInt64) (ret : Int) :
    Adapter β × Int :=
  match σ.checkSocketId socketId tag with
  | none => (σ, -1)
  | some s => if (σ.sockets s).state = .closed then (σ, 0) else σ.closeSocket s ret

/-- `libuv_socket_close`. -/
def libuvSocketClose (σ : Adapter β) (socketId : Int) (tag : UInt64) (ret : Int) :
    Adapter β × Int :=
  match σ.checkSocketId socketId tag with
  | none => (σ, -1)
  | some s =>
    if (σ.sockets s).tag = 0 ∨ (σ.sockets s).state = .closed then (σ, 0)
    else σ.closeSocket s ret

/-- `libuv_socket_force_close`: it does not ask for the tag. -/
def libuvSocketForceClose (σ : Adapter β) (socketId : Int) (ret : Int) : Adapter β × Int :=
  match slotOf socketId with
  | none => (σ, -1)
  | some s =>
    if (σ.sockets s).tag = 0 ∨ (σ.sockets s).state = .closed then (σ, 0)
    else ((σ.closeSocket s ret).1.clearTag s, 0)

/-- What a receive hands back: the return value, the bytes copied to `buf`, and
the sender of a datagram. -/
structure Received (β : Type) where
  ret : Int
  bytes : List β
  sender : Option SockAddr
  deriving DecidableEq

/-- The TCP half of `libuv_socket_receive`; `buf` says whether a buffer was
passed. -/
def receiveTcp (σ : Adapter β) (s : Slot) (buf : Bool) (len : UInt32) : Adapter β × Received β :=
  let c := σ.sockets s
  if buf = false then (σ, ⟨toCInt c.recvSize, [], none⟩)
  else if c.recvSize = 0 ∧ 0 < len.toNat then (σ, ⟨0, [], none⟩)
  else
    let n := if len.toNat > c.recvSize then c.recvSize else len.toNat
    let bytes := (c.recvBuff.getD []).take n
    let newsize := c.recvSize - n
    if newsize = 0 then
      (σ.modify s fun c => { c with recvBuff := none, recvSize := 0 }, ⟨toCInt n, bytes, none⟩)
    else
      (σ.modify s fun c => { c with
          recvBuff := some (((c.recvBuff.getD []).drop n).take newsize), recvSize := newsize },
        ⟨toCInt n, bytes, none⟩)

/-- The UDP half of `libuv_socket_receive`; `none` is the dereference of a NULL
`udp_data`. -/
def receiveUdp (σ : Adapter β) (s : Slot) (buf : Bool) (len : UInt32) :
    Option (Adapter β × Received β) :=
  if buf = false then
    match (σ.sockets s).udpData with
    | [] => some (σ, ⟨0, [], none⟩)
    | d :: _ => some (σ, ⟨toCInt d.data.length, [], none⟩)
  else if len.toNat = 0 then some (σ, ⟨0, [], none⟩)
  else
    match (σ.sockets s).udpData with
    | [] => none
    | d :: ds =>
      let n := if d.data.length < len.toNat then d.data.length else len.toNat
      some (σ.modify s fun c => { c with udpData := ds },
        ⟨toCInt n, d.data.take n, some d.addr⟩)

/-- `libuv_socket_receive`. -/
def libuvSocketReceive (σ : Adapter β) (socketId : Int) (tag : UInt64) (buf : Bool)
    (len : UInt32) : Option (Adapter β × Received β) :=
  match σ.checkSocketId socketId tag with
  | none => some (σ, ⟨-1, [], none⟩)
  | some s => if (σ.sockets s).isTcp then some (σ.receiveTcp s buf len) else σ.receiveUdp s buf len

/-- `libuv_socket_send`.  `ret` is what `uv_write` or `uv_udp_send` returns. -/
def libuvSocketSend (σ : Adapter β) (socketId : Int) (tag : UInt64) (len : UInt32) (ret : Int) :
    Adapter β × Int :=
  match σ.checkSocketId socketId tag with
  | none => (σ, -1)
  | some s =>
    if len = 0 then (σ, 0)
    else if (σ.sockets s).state ≠ .connected then (σ, -1)
    else if ret ≠ 0 then (σ, -1)
    else if (σ.sockets s).isTcp then (σ.submit (.onSent s len), toCInt len.toNat)
    else (σ.submit (.onSentUdp s len), toCInt len.toNat)

/-- One round of the loop of `libuv_socket_clean`. -/
def cleanOne (σ : Adapter β) (socketId : Int) : Adapter β :=
  match slotOf socketId with
  | none => σ
  | some s =>
    if (σ.sockets s).tag = 0 ∨ (σ.sockets s).state = .closed then σ.modify s UvConn.reset else σ

/-- `libuv_socket_clean`. -/
def libuvSocketClean (σ : Adapter β) (list : List Int) : Adapter β :=
  list.foldl cleanOne σ

/-! ## The callbacks -/

/-- `on_connect`.  `readRet` is what `uv_read_start` or `uv_udp_recv_start`
returns, which is only logged. -/
def onConnect (σ : Adapter β) (s : Slot) (status readRet : Int) (posted : Bool) : Adapter β :=
  if status ≠ 0 then (σ.setSocketState s .closed).cbToNwTask posted .socketError s 0
  else
    let σ₁ := (σ.setSocketState s .connected).cbToNwTask posted .socketConnectOk s 0
    if readRet ≠ 0 then σ₁
    else if (σ₁.sockets s).isTcp then
      σ₁.modify s fun c => { c with tcp := { c.tcp with reading := true } }
    else
      σ₁.modify s fun c => { c with udp := { c.udp with reading := true } }

/-- What `on_recv` is called with: `nread` bytes, `UV_EOF`, or another error. -/
inductive ReadResult (β : Type)
  | data (bytes : List β)
  | eof
  | error
  deriving DecidableEq

/-- `on_recv`.  `room` says whether growing the receive buffer succeeds. -/
def onRecv (σ : Adapter β) (s : Slot) (r : ReadResult β) (room posted : Bool) : Adapter β :=
  match r with
  | .eof =>
    if (σ.sockets s).state = .closed then σ
    else if (σ.sockets s).state = .closing then σ
    else (σ.setSocketState s .closing).cbToNwTask posted .socketRemoteClose s 0
  | .error =>
    if (σ.sockets s).state = .closed then σ
    else (σ.setSocketState s .closing).cbToNwTask posted .socketError s 0
  | .data [] => σ
  | .data (b :: bs) =>
    match (σ.sockets s).recvBuff with
    | none =>
      (σ.modify s fun c => { c with recvBuff := some (b :: bs), recvSize := (b :: bs).length
        }).cbToNwTask posted .socketRxNew s (b :: bs).length
    | some old =>
      if room then
        (σ.modify s fun c => { c with
          recvBuff := some (old.take c.recvSize ++ b :: bs)
          recvSize := c.recvSize + (b :: bs).length
          }).cbToNwTask posted .socketRxNew s (b :: bs).length
      else σ.cbToNwTask posted .socketError s 0

/-- `on_recv_udp`: a datagram is appended at the tail of the list.  `none` stands
for a read error, and `room` says whether its node can be allocated. -/
def onRecvUdp (σ : Adapter β) (s : Slot) (d : Option (UdpData β)) (room posted : Bool) :
    Adapter β :=
  match d with
  | none => σ
  | some d =>
    if d.data.length = 0 then σ
    else if room then
      (σ.modify s fun c => { c with udpData := c.udpData ++ [d] }).cbToNwTask posted
        .socketRxNew s d.data.length
    else σ

/-- `on_close`. -/
def onClose (σ : Adapter β) (s : Slot) (posted : Bool) : Adapter β :=
  if (σ.sockets s).tag = 0 ∨ (σ.sockets s).state = .closed then σ.clearTag s
  else ((σ.setSocketState s .closed).cbToNwTask posted .socketCloseOk s 0).clearTag s

/-- `on_shutdown`: unlike `on_close` it leaves the tag of a closed slot alone. -/
def onShutdown (σ : Adapter β) (s : Slot) (posted : Bool) : Adapter β :=
  if (σ.sockets s).tag = 0 ∨ (σ.sockets s).state = .closed then σ
  else ((σ.setSocketState s .closed).cbToNwTask posted .socketCloseOk s 0).clearTag s

/-- `on_sent` and `on_sent_udp`. -/
def onSent (σ : Adapter β) (s : Slot) (len : UInt32) (status : Int) (posted : Bool) : Adapter β :=
  if status = 0 then σ.cbToNwTask posted .socketTxOk s len.toNat
  else σ.cbToNwTask posted .socketError s 0

end Adapter

end Libuv
end LuatosPc
