/-
# Datagrams and their checksums (`udp.c`)

`udp_sendto_if_src` puts a header in front of a datagram and, as its last field, the checksum of all
of it; `udp_input` computes the sum again over what arrived and drops what does not add up. UDP-Lite
does the same for the first bytes only, and says how many in the length field. Here sender and
receiver are put together: between them the datagram may be cut into other buffers at other addresses,
and one byte of it may have changed.
-/
import LuatosPc.Lwip.Chksum

namespace LuatosPc.Lwip.Udp

open Chksum

/-! ## The code -/

/-- A chain of buffers. `tot_len`, the length of all of it, is a `u16_t`. -/
structure Chain where
  bufs : List Pbuf
  tot_lt : (bytes bufs).length < 2 ^ 16
  deriving DecidableEq

namespace Chain

/-- The bytes of the datagram. -/
def data (p : Chain) : List UInt8 := bytes p.bufs

/-- `p->tot_len` -/
def totLen (p : Chain) : UInt16 := UInt16.ofNat p.data.length

/-- `p->len`, of the first buffer. -/
def len (p : Chain) : Nat := (p.bufs.head?.map fun q => q.payload.length).getD 0

end Chain

/-- A `u16_t` field of a header, as a little endian host reads it. -/
def u16At (d : List UInt8) (k : Nat) : Nat := (d.getD k 0).toNat + 256 * (d.getD (k + 1) 0).toNat

/-- And as it writes it. -/
def setU16 (d : List UInt8) (k v : Nat) : List UInt8 :=
  (d.set k (UInt8.ofNat v)).set (k + 1) (UInt8.ofNat (v / 256))

theorem length_setU16 (d : List UInt8) (k v : Nat) : (setU16 d k v).length = d.length := by
  rw [setU16, List.length_set, List.length_set]

/-- A field written through `udphdr = (struct udp_hdr *)q->payload`, the first buffer. -/
def putField (k v : Nat) : List Pbuf → List Pbuf
  | [] => []
  | q :: rest => ⟨q.odd, setU16 q.payload k v, (length_setU16 _ k v).symm ▸ q.len_lt⟩ :: rest

theorem length_bytes_putField (k v : Nat) (p : List Pbuf) :
    (bytes (putField k v p)).length = (bytes p).length := by
  cases p with
  | nil => rfl
  | cons q rest => simp [putField, bytes_cons, length_setU16]

/-- A header field of the datagram. -/
def Chain.put (k v : Nat) (p : Chain) : Chain :=
  ⟨putField k v p.bufs, (length_bytes_putField k v p.bufs).symm ▸ p.tot_lt⟩

/-- What `udp_sendto_if_src` reads of its `struct udp_pcb`. -/
structure UdpPcb where
  localPort : UInt16
  /-- `UDP_FLAGS_UDPLITE` -/
  udplite : Bool
  /-- `UDP_FLAGS_NOCHKSUM` -/
  nochksum : Bool
  chksumLenTx : UInt16

/-- `UDP_HLEN`, the size of `struct udp_hdr`: the ports, the length and the checksum. -/
def udpHlen : Nat := 8

/-- `IP_PROTO_UDP` -/
def ipProtoUdp : UInt8 := 17

/-- `IP_PROTO_UDPLITE` -/
def ipProtoUdplite : UInt8 := 136

/-- `IP_IS_V6`. -/
def isV6 : IpAddrs → Bool
  | .v4 _ _ => false
  | .v6 _ _ => true

/-- `chksum zero must become 0xffff, as zero means 'no checksum'` -/
def nonzero (chksum : Nat) : Nat := if chksum = 0 then 0xffff else chksum

/-- How many bytes the sender of UDP-Lite covers, and what it says in the header: an illegal length
means all of them, and is sent as zero. -/
def coverage (pcb : UdpPcb) (q : Chain) : UInt16 × UInt16 :=
  if pcb.chksumLenTx.toNat < udpHlen ∨ pcb.chksumLenTx.toNat > q.totLen.toNat then (q.totLen, 0)
  else (pcb.chksumLenTx, pcb.chksumLenTx)

/-- `udp_sendto_if_src`, from the header on: `q` already has room for it. `none` is a failed
assertion, here or in the checksum. -/
def fillHeader (pcb : UdpPcb) (q : Chain) (dstPort : UInt16) (addrs : IpAddrs) : Option Chain :=
  if q.len < udpHlen then none
  else
    let q := q.put 0 (lwipHtons pcb.localPort.toNat)
    let q := q.put 2 (lwipHtons dstPort.toNat)
    let q := q.put 6 0
    if pcb.udplite then
      let (chklen, chklenHdr) := coverage pcb q
      let q := q.put 4 (lwipHtons chklenHdr.toNat)
      (ipChksumPseudoPartial q.bufs ipProtoUdplite q.totLen chklen addrs).map fun chksum =>
        q.put 6 (nonzero chksum)
    else
      let q := q.put 4 (lwipHtons q.totLen.toNat)
      if isV6 addrs || !pcb.nochksum then
        some (q.put 6 (nonzero (ipChksumPseudo q.bufs ipProtoUdp q.totLen addrs)))
      else some q

/-- The checks of `udp_input` on a datagram for this host: whether it goes on to its pcb. `none` is a
failed assertion in the checksum. -/
def inputAccepts (lite : Bool) (p : Chain) (addrs : IpAddrs) : Option Bool :=
  if p.len < udpHlen then some false
  else if lite then
    let chklen := lwipHtons (u16At p.data 4)
    if chklen < udpHlen ∧ chklen ≠ 0 then some false
    else
      let chklen := if chklen = 0 then p.totLen else UInt16.ofNat chklen
      (ipChksumPseudoPartial p.bufs ipProtoUdplite p.totLen chklen addrs).map fun chksum =>
        chksum == 0
  else if u16At p.data 6 ≠ 0 then
    some (ipChksumPseudo p.bufs ipProtoUdp p.totLen addrs == 0)
  else some true

/-! ## Sums that add up -/

/-- The bytes and the pseudo header add up: the checksum over them is zero. -/
def Sound (head : Nat) (d : List UInt8) : Prop := Ones.wrap 65535 (head + weigh false d) = 65535

theorem weigh_set (odd : Bool) (d : List UInt8) (i : Nat) (y : UInt8) (h : i < d.length) :
    weigh odd (d.set i y) + weight (odd ^^ decide (i % 2 ≠ 0)) * (d.getD i 0).toNat
      = weigh odd d + weight (odd ^^ decide (i % 2 ≠ 0)) * y.toNat := by
  induction d generalizing odd i with
  | nil => exact absurd h (Nat.not_lt_zero i)
  | cons b d ih =>
    cases i with
    | zero => simp [weigh]; omega
    | succ i =>
      have hflip : (odd ^^ decide ((i + 1) % 2 ≠ 0)) = (!odd ^^ decide (i % 2 ≠ 0)) := by
        cases odd <;> rcases Nat.mod_two_eq_zero_or_one i with hi | hi <;> simp [hi, Nat.add_mod]
      have hrest := ih (!odd) i (Nat.lt_of_succ_lt_succ h)
      rw [hflip, List.set_cons_succ, weigh, weigh, List.getD_cons_succ]
      omega

/-- A field at an even place counts with its value. -/
theorem weigh_setU16 (d : List UInt8) {k v : Nat} (hk : k % 2 = 0) (hv : v ≤ 65535)
    (h : k + 1 < d.length) : weigh false (setU16 d k v) + u16At d k = weigh false d + v := by
  have hlow := weigh_set false d k (UInt8.ofNat v) (by omega)
  have hhigh := weigh_set false (d.set k (UInt8.ofNat v)) (k + 1) (UInt8.ofNat (v / 256))
    (by rw [List.length_set]; exact h)
  have hodd : (k + 1) % 2 ≠ 0 := by omega
  have hget : (d.set k (UInt8.ofNat v)).getD (k + 1) 0 = d.getD (k + 1) 0 := by
    simp [List.getD]
  have hvlow : (UInt8.ofNat v).toNat = v % 256 := UInt8.toNat_ofNat'
  have hvhigh : (UInt8.ofNat (v / 256)).toNat = v / 256 := by
    rw [UInt8.toNat_ofNat', Nat.mod_eq_of_lt (by omega)]
  simp only [hk, hodd, ne_eq, not_true, not_false_eq_true, decide_false, decide_true, Bool.xor_false,
    Bool.xor_true, Bool.not_false, weight, Bool.false_eq_true, if_false, if_true, hget, hvlow,
    hvhigh] at hlow hhigh
  rw [u16At, setU16]
  omega

/-- Filling in the complement makes a datagram sound. -/
theorem sound_setU16 (head : Nat) {d : List UInt8} {k : Nat} (hk : k % 2 = 0) (h : k + 1 < d.length)
    (hzero : u16At d k = 0) :
    Sound head (setU16 d k (nonzero (65535 - Ones.wrap 65535 (head + weigh false d)))) := by
  have hle : nonzero (65535 - Ones.wrap 65535 (head + weigh false d)) ≤ 65535 := by
    unfold nonzero
    split <;> omega
  have hw := weigh_setU16 d hk hle h
  rw [hzero, Nat.add_zero] at hw
  rw [Sound, hw, ← Nat.add_assoc]
  have hwrap := Ones.wrap_le (m := 65535) (by decide) (head + weigh false d)
  unfold nonzero
  split
  case isTrue hz => exact Ones.wrap_add_self (by decide) (by omega)
  case isFalse => exact Ones.wrap_add_complement 65535 _ (by decide)

/-- One byte cannot change and leave a sound datagram sound: it moves the sum by less than 65535. -/
theorem sound_set_iff {head : Nat} {d : List UInt8} (h : Sound head d) (i : Nat) (y : UInt8) :
    Sound head (d.set i y) ↔ d.set i y = d := by
  rcases Nat.lt_or_ge i d.length with hi | hi
  · have hset := weigh_set false d i y hi
    have hget : d.getD i 0 = d[i] := by simp [List.getD, hi]
    have hsame : d.set i y = d ↔ d[i].toNat = y.toNat := by
      rw [UInt8.toNat_inj]
      constructor
      · intro hd
        have hy := congrArg (fun e => e[i]?) hd
        simpa [hi, eq_comm] using hy
      · rintro rfl
        exact List.set_getElem_self hi
    rw [Sound, Ones.wrap_eq_self_iff (by decide)] at h ⊢
    rw [hget] at hset
    rw [hsame]
    have hx := d[i].toNat_lt
    have hy := y.toNat_lt
    generalize (false ^^ decide (i % 2 ≠ 0)) = odd at hset
    cases odd <;> simp only [weight, Bool.false_eq_true, if_false, if_true] at hset <;> omega
  · rw [List.set_eq_of_length_le hi]
    exact iff_of_true h rfl

/-! ## Header fields -/

theorem u16At_setU16 (d : List UInt8) {k v : Nat} (hv : v ≤ 65535) (h : k + 1 < d.length) :
    u16At (setU16 d k v) k = v := by
  have hlow : (setU16 d k v).getD k 0 = UInt8.ofNat v := by
    simp [setU16, List.getD, show k < d.length by omega]
  have hhigh : (setU16 d k v).getD (k + 1) 0 = UInt8.ofNat (v / 256) := by
    simp [setU16, List.getD, h]
  rw [u16At, hlow, hhigh, UInt8.toNat_ofNat', UInt8.toNat_ofNat']
  omega

theorem u16At_congr {d e : List UInt8} {k : Nat} (hlow : d[k]? = e[k]?)
    (hhigh : d[k + 1]? = e[k + 1]?) : u16At d k = u16At e k := by
  rw [u16At, u16At, List.getD_eq_getElem?_getD, List.getD_eq_getElem?_getD,
    List.getD_eq_getElem?_getD, List.getD_eq_getElem?_getD, hlow, hhigh]

theorem u16At_setU16_of_ne (d : List UInt8) {j k : Nat} (v : Nat) (h : j + 1 < k ∨ k + 1 < j) :
    u16At (setU16 d k v) j = u16At d j := by
  have hne : ∀ i, i = j ∨ i = j + 1 → (setU16 d k v)[i]? = d[i]? := by
    intro i hi
    rw [setU16, List.getElem?_set_ne (by omega), List.getElem?_set_ne (by omega)]
  exact u16At_congr (hne j (.inl rfl)) (hne (j + 1) (.inr rfl))

theorem take_setU16 (d : List UInt8) (k v n : Nat) : (setU16 d k v).take n = setU16 (d.take n) k v := by
  rw [setU16, setU16, List.take_set, List.take_set]

theorem lwipHtons_lwipHtons {x : Nat} (hx : x ≤ 65535) : lwipHtons (lwipHtons x) = x := by
  have hle : lwipHtons x ≤ 65535 := swapBytesInWord_le hx
  have hx' : lwipHtons x = 256 * (x % 256) + x / 256 := swapBytesInWord_eq hx
  rw [lwipHtons, swapBytesInWord_eq hle, hx']
  omega

namespace Chain

@[simp] theorem len_put (k v : Nat) (p : Chain) : (p.put k v).len = p.len := by
  obtain ⟨bufs, _⟩ := p
  cases bufs with
  | nil => rfl
  | cons q rest => exact length_setU16 q.payload k v

@[simp] theorem length_data_put (k v : Nat) (p : Chain) : (p.put k v).data.length = p.data.length :=
  length_bytes_putField k v p.bufs

@[simp] theorem totLen_put (k v : Nat) (p : Chain) : (p.put k v).totLen = p.totLen := by
  rw [totLen, totLen, length_data_put]

theorem len_le (p : Chain) : p.len ≤ p.data.length := by
  obtain ⟨bufs, _⟩ := p
  cases bufs with
  | nil => exact Nat.zero_le _
  | cons q rest =>
    rw [data, bytes_cons, List.length_append]
    exact Nat.le_add_right _ _

theorem toNat_totLen (p : Chain) : p.totLen.toNat = p.data.length := by
  rw [totLen, UInt16.toNat_ofNat']
  exact Nat.mod_eq_of_lt p.tot_lt

/-- A field of the header lies in the first buffer, so writing it writes the datagram. -/
theorem data_put {k : Nat} (v : Nat) {p : Chain} (h : k + 1 < p.len) :
    (p.put k v).data = setU16 p.data k v := by
  obtain ⟨bufs, _⟩ := p
  cases bufs with
  | nil => exact absurd h (Nat.not_lt_zero _)
  | cons q rest =>
    have hq : k + 1 < q.payload.length := h
    change setU16 q.payload k v ++ bytes rest = setU16 (q.payload ++ bytes rest) k v
    rw [setU16, setU16, List.set_append_left _ _ (by omega),
      List.set_append_left _ _ (by rw [List.length_set]; exact hq)]

end Chain

/-- The datagram before its length and its checksum are filled in. -/
def opened (pcb : UdpPcb) (q : Chain) (dstPort : UInt16) : Chain :=
  ((q.put 0 (lwipHtons pcb.localPort.toNat)).put 2 (lwipHtons dstPort.toNat)).put 6 0

/-- The datagram with everything but its checksum. -/
theorem u16At_opened (pcb : UdpPcb) {q : Chain} (dstPort : UInt16) {l : Nat} (hl : l ≤ 65535)
    (h : udpHlen ≤ q.len) :
    u16At ((opened pcb q dstPort).put 4 l).data 6 = 0 ∧
      u16At ((opened pcb q dstPort).put 4 l).data 4 = l := by
  have h8 : 8 ≤ q.len := h
  have hle := q.len_le
  have hdata : (opened pcb q dstPort).data
      = setU16 ((q.put 0 (lwipHtons pcb.localPort.toNat)).put 2 (lwipHtons dstPort.toNat)).data 6 0 :=
    Chain.data_put 0 (by simp; omega)
  have hput : ((opened pcb q dstPort).put 4 l).data = setU16 (opened pcb q dstPort).data 4 l :=
    Chain.data_put l (by simp [opened]; omega)
  constructor
  · rw [hput, u16At_setU16_of_ne _ _ (.inr (by omega)), hdata]
    exact u16At_setU16 _ (Nat.zero_le _) (by simp; omega)
  · rw [hput]
    exact u16At_setU16 _ hl (by simp [opened]; omega)

/-! ## From the sender to the receiver -/

theorem le_len_of_fillHeader {pcb : UdpPcb} {q r : Chain} {dstPort : UInt16} {addrs : IpAddrs}
    (h : fillHeader pcb q dstPort addrs = some r) : udpHlen ≤ q.len := by
  unfold fillHeader at h
  split at h
  case isTrue => cases h
  case isFalse hlen => exact Nat.le_of_not_lt hlen

/-- What the sender of a checksummed datagram has made. -/
theorem fillHeader_udp {pcb : UdpPcb} {q r : Chain} {dstPort : UInt16} {addrs : IpAddrs}
    (hlite : pcb.udplite = false) (hchk : isV6 addrs = true ∨ pcb.nochksum = false)
    (h : fillHeader pcb q dstPort addrs = some r) :
    Sound (headSum addrs ipProtoUdp r.totLen) r.data := by
  have hlen := le_len_of_fillHeader h
  have h8 : 8 ≤ q.len := hlen
  have hon : (isV6 addrs || !pcb.nochksum) = true := by rcases hchk with hc | hc <;> simp [hc]
  have hr : r = ((opened pcb q dstPort).put 4 (lwipHtons (opened pcb q dstPort).totLen.toNat)).put 6
      (nonzero (ipChksumPseudo
        ((opened pcb q dstPort).put 4 (lwipHtons (opened pcb q dstPort).totLen.toNat)).bufs
        ipProtoUdp ((opened pcb q dstPort).put 4
          (lwipHtons (opened pcb q dstPort).totLen.toNat)).totLen addrs)) := by
    rw [fillHeader, if_neg (Nat.not_lt.mpr hlen)] at h
    simp only [hlite, Bool.false_eq_true, if_false, hon, if_true] at h
    exact (Option.some.inj h).symm
  have hl : lwipHtons (opened pcb q dstPort).totLen.toNat ≤ 65535 :=
    swapBytesInWord_le (Nat.le_of_lt_succ (opened pcb q dstPort).totLen.toNat_lt)
  generalize lwipHtons (opened pcb q dstPort).totLen.toNat = l at hr hl
  have hzero := (u16At_opened pcb dstPort hl hlen).1
  have hlen' : ((opened pcb q dstPort).put 4 l).len = q.len := by simp [opened]
  have hdata := ((opened pcb q dstPort).put 4 l).len_le
  rw [hr, Chain.totLen_put, Chain.data_put _ (by omega), ipChksumPseudo_eq]
  exact sound_setU16 _ (by decide) (by omega) hzero

/-- The receiver computes zero exactly for what adds up. -/
theorem ipChksumPseudo_eq_zero_iff (p : List Pbuf) (proto : UInt8) (protoLen : UInt16)
    (addrs : IpAddrs) :
    ipChksumPseudo p proto protoLen addrs = 0 ↔ Sound (headSum addrs proto protoLen) (bytes p) := by
  have hle := Ones.wrap_le (m := 65535) (by decide) (headSum addrs proto protoLen + weigh false (bytes p))
  rw [ipChksumPseudo_eq, Sound]
  omega

/-- A datagram arrives in some buffers, with at most one of its bytes changed on the way. The receiver
drops it if the first buffer does not hold the header. Else it accepts it in two cases only: nothing
changed, or the change left a checksum field of zero, which says that there is no checksum. -/
theorem udp_detects_one_byte (pcb : UdpPcb) (q r : Chain) (dstPort : UInt16) (addrs : IpAddrs)
    (hlite : pcb.udplite = false) (hchk : isV6 addrs = true ∨ pcb.nochksum = false)
    (hsend : fillHeader pcb q dstPort addrs = some r) (p : Chain) (i : Nat) (y : UInt8)
    (hp : p.data = r.data.set i y) :
    inputAccepts false p addrs
      = some (decide (udpHlen ≤ p.len ∧ (p.data = r.data ∨ u16At p.data 6 = 0))) := by
  have hsound := fillHeader_udp hlite hchk hsend
  have htot : p.totLen = r.totLen := by rw [Chain.totLen, Chain.totLen, hp, List.length_set]
  have hsame : Sound (headSum addrs ipProtoUdp r.totLen) p.data ↔ p.data = r.data := by
    rw [hp]
    exact sound_set_iff hsound i y
  by_cases hlen : udpHlen ≤ p.len
  swap
  · rw [inputAccepts, if_pos (Nat.not_le.mp hlen)]
    simp [hlen]
  rw [inputAccepts, if_neg (Nat.not_lt.mpr hlen), if_neg Bool.false_ne_true]
  simp only [hlen, true_and]
  split
  case isTrue hfield =>
    have hverdict := (ipChksumPseudo_eq_zero_iff p.bufs ipProtoUdp r.totLen addrs).trans hsame
    rw [htot, Option.some_inj, Bool.eq_iff_iff, beq_iff_eq, decide_eq_true_iff, hverdict]
    exact (or_iff_left hfield).symm
  case isFalse hfield => simp [not_not.mp hfield]

/-- A datagram of three bytes whose first one is garbled. -/
theorem udp_detects_one_byte_garbled :
    fillHeader ⟨7, false, false, 0⟩
        ⟨[⟨false, List.replicate 8 0, by decide⟩, ⟨true, [1, 2, 3], by decide⟩], by decide⟩ 53
        (.v4 0x0100007f 0x0200007f)
      = some ⟨[⟨false, [0, 7, 0, 53, 0, 11, 0xfd, 0x96], by decide⟩, ⟨true, [1, 2, 3], by decide⟩],
          by decide⟩ ∧
    inputAccepts false ⟨[⟨true, [0, 7, 0, 53, 0, 11, 0xfd, 0x96, 9, 2, 3], by decide⟩], by decide⟩
      (.v4 0x0100007f 0x0200007f) = some false := by
  refine ⟨by decide +kernel, ?_⟩
  exact udp_detects_one_byte ⟨7, false, false, 0⟩
    ⟨[⟨false, List.replicate 8 0, by decide⟩, ⟨true, [1, 2, 3], by decide⟩], by decide⟩
    ⟨[⟨false, [0, 7, 0, 53, 0, 11, 0xfd, 0x96], by decide⟩, ⟨true, [1, 2, 3], by decide⟩], by decide⟩
    53 (.v4 0x0100007f 0x0200007f) rfl (.inr rfl) (by decide +kernel)
    ⟨[⟨true, [0, 7, 0, 53, 0, 11, 0xfd, 0x96, 9, 2, 3], by decide⟩], by decide⟩ 8 9 (by decide)

/-! ### UDP-Lite -/

/-- The header is always covered, and never more than there is. -/
theorem coverage_bounds (pcb : UdpPcb) {q : Chain} (h : udpHlen ≤ q.len) :
    udpHlen ≤ (coverage pcb q).1.toNat ∧ (coverage pcb q).1.toNat ≤ q.data.length := by
  have hle := q.len_le
  have htot := q.toNat_totLen
  unfold coverage
  split <;> dsimp only <;> omega

/-- What the sender says of the coverage, as the receiver understands it. -/
theorem coverage_snd (pcb : UdpPcb) (q : Chain) :
    (coverage pcb q).2 = 0 ∧ (coverage pcb q).1 = q.totLen ∨
      (coverage pcb q).2 = (coverage pcb q).1 ∧ udpHlen ≤ (coverage pcb q).1.toNat := by
  unfold coverage
  split
  case isTrue => exact .inl ⟨rfl, rfl⟩
  case isFalse h => exact .inr ⟨rfl, Nat.le_of_not_lt fun hlt => h (.inl hlt)⟩

theorem fillHeader_udplite {pcb : UdpPcb} {q r : Chain} {dstPort : UInt16} {addrs : IpAddrs}
    (hlite : pcb.udplite = true) (h : fillHeader pcb q dstPort addrs = some r) :
    Sound (headSum addrs ipProtoUdplite r.totLen) (r.data.take (coverage pcb q).1.toNat) ∧
      u16At r.data 4 = lwipHtons (coverage pcb q).2.toNat ∧ r.data.length = q.data.length := by
  have hlen := le_len_of_fillHeader h
  obtain ⟨h8, hn⟩ := coverage_bounds pcb hlen
  have hlen8 : 8 ≤ q.len := hlen
  have hcover : coverage pcb (opened pcb q dstPort) = coverage pcb q := by simp [coverage, opened]
  have hl : lwipHtons (coverage pcb q).2.toNat ≤ 65535 :=
    swapBytesInWord_le (Nat.le_of_lt_succ (coverage pcb q).2.toNat_lt)
  rw [fillHeader, if_neg (Nat.not_lt.mpr hlen)] at h
  simp only [hlite, if_true] at h
  rw [← opened, hcover] at h
  generalize lwipHtons (coverage pcb q).2.toNat = l at h hl ⊢
  obtain ⟨chksum, hsum, rfl⟩ := Option.map_eq_some_iff.mp h
  rw [ipChksumPseudoPartial_eq] at hsum
  split at hsum
  case isFalse => cases hsum
  case isTrue =>
    cases hsum
    obtain ⟨hzero, hfield⟩ := u16At_opened pcb dstPort hl hlen
    have hlen' : ((opened pcb q dstPort).put 4 l).len = q.len := by simp [opened]
    have hlength : ((opened pcb q dstPort).put 4 l).data.length = q.data.length := by simp [opened]
    rw [Chain.totLen_put, Chain.length_data_put, Chain.data_put _ (by omega)]
    refine ⟨?_, ?_, hlength⟩
    · rw [take_setU16]
      have h8' : 8 ≤ (coverage pcb q).1.toNat := h8
      refine sound_setU16 _ (by decide) (by rw [List.length_take]; omega) ?_
      rw [← hzero]
      exact u16At_congr (List.getElem?_take_of_lt (by omega)) (List.getElem?_take_of_lt (by omega))
    · rw [u16At_setU16_of_ne _ _ (.inl (by omega)), hfield]

/-- A UDP-Lite datagram of unchanged length is judged by the bytes its sender covered, whatever became
of the others: if at most one covered byte changed, outside the length field, it is accepted exactly
when none did and the first of its buffers holds the header. The receiver must get past the assertion
in the checksum. -/
theorem udplite_detects_one_covered_byte (pcb : UdpPcb) (q r : Chain) (dstPort : UInt16)
    (addrs : IpAddrs) (hlite : pcb.udplite = true) (hsend : fillHeader pcb q dstPort addrs = some r)
    (p : Chain) (hlength : p.data.length = r.data.length) (i : Nat) (y : UInt8) (hi : i ≠ 4 ∧ i ≠ 5)
    (hp : p.data.take (coverage pcb q).1.toNat = (r.data.take (coverage pcb q).1.toNat).set i y)
    (hassert : (coverage pcb q).1.toNat - p.len < 0x7fff) :
    inputAccepts true p addrs
      = some (decide (udpHlen ≤ p.len ∧ p.data.take (coverage pcb q).1.toNat
          = r.data.take (coverage pcb q).1.toNat)) := by
  by_cases hlen : udpHlen ≤ p.len
  swap
  · rw [inputAccepts, if_pos (Nat.not_le.mp hlen)]
    simp [hlen]
  simp only [hlen, true_and]
  obtain ⟨hsound, hfield, hrq⟩ := fillHeader_udplite hlite hsend
  obtain ⟨h8, -⟩ := coverage_bounds pcb (le_len_of_fillHeader hsend)
  have h8' : 8 ≤ (coverage pcb q).1.toNat := h8
  have htot : p.totLen = r.totLen := by rw [Chain.totLen, Chain.totLen, hlength]
  have htotq : p.totLen = q.totLen := by rw [Chain.totLen, Chain.totLen, hlength, hrq]
  -- the length field is covered, so it arrives unchanged
  have hgot : lwipHtons (u16At p.data 4) = (coverage pcb q).2.toNat := by
    have hat : ∀ j, j = 4 ∨ j = 5 → p.data[j]? = r.data[j]? := by
      intro j hj
      have hj' := congrArg (fun d => d[j]?) hp
      rwa [List.getElem?_set_ne (by omega), List.getElem?_take_of_lt (by omega),
        List.getElem?_take_of_lt (by omega)] at hj'
    rw [u16At_congr (hat 4 (.inl rfl)) (hat 5 (.inr rfl)), hfield,
      lwipHtons_lwipHtons (Nat.le_of_lt_succ (coverage pcb q).2.toNat_lt)]
  have hchklen : (if (coverage pcb q).2.toNat = 0 then p.totLen
      else UInt16.ofNat (coverage pcb q).2.toNat) = (coverage pcb q).1 := by
    rcases coverage_snd pcb q with ⟨h0, hall⟩ | ⟨hsame, hge⟩
    · rw [h0, hall]
      exact htotq
    · rw [hsame, if_neg (by omega), UInt16.ofNat_toNat]
  have hcond : ¬((coverage pcb q).2.toNat < udpHlen ∧ (coverage pcb q).2.toNat ≠ 0) := by
    rcases coverage_snd pcb q with ⟨h0, -⟩ | ⟨hsame, hge⟩
    · rw [h0]
      exact fun h => h.2 rfl
    · rw [hsame]
      omega
  have hfirst : ∀ b ∈ p.bufs.head?, (coverage pcb q).1.toNat - b.payload.length < 0x7fff := by
    intro b hb
    rw [Option.mem_def] at hb
    rwa [Chain.len, hb, Option.map_some, Option.getD_some] at hassert
  have hle := Ones.wrap_le (m := 65535) (by decide) (headSum addrs ipProtoUdplite r.totLen
    + weigh false ((bytes p.bufs).take (coverage pcb q).1.toNat))
  rw [inputAccepts, if_neg (Nat.not_lt.mpr hlen), if_pos rfl, hgot]
  dsimp only
  rw [if_neg hcond, hchklen, ipChksumPseudoPartial_eq, if_pos hfirst, Option.map_some, htot,
    Option.some_inj, Bool.eq_iff_iff, beq_iff_eq, decide_eq_true_iff, hp, ← sound_set_iff hsound i y,
    ← hp, Sound]
  change _ ↔ Ones.wrap 65535 (_ + weigh false ((bytes p.bufs).take _)) = _
  omega

/-- Nine bytes covered of eleven: the last two may turn into anything. -/
theorem udplite_detects_one_covered_byte_tail :
    fillHeader ⟨7, true, false, 9⟩
        ⟨[⟨false, List.replicate 8 0, by decide⟩, ⟨true, [1, 2, 3], by decide⟩], by decide⟩ 53
        (.v4 0x0100007f 0x0200007f)
      = some ⟨[⟨false, [0, 7, 0, 53, 0, 9, 0x00, 0x24], by decide⟩, ⟨true, [1, 2, 3], by decide⟩],
          by decide⟩ ∧
    inputAccepts true ⟨[⟨true, [0, 7, 0, 53, 0, 9, 0x00, 0x24, 1], by decide⟩,
      ⟨true, [200, 201], by decide⟩], by decide⟩ (.v4 0x0100007f 0x0200007f) = some true := by
  refine ⟨by decide +kernel, ?_⟩
  exact udplite_detects_one_covered_byte ⟨7, true, false, 9⟩
    ⟨[⟨false, List.replicate 8 0, by decide⟩, ⟨true, [1, 2, 3], by decide⟩], by decide⟩
    ⟨[⟨false, [0, 7, 0, 53, 0, 9, 0x00, 0x24], by decide⟩, ⟨true, [1, 2, 3], by decide⟩], by decide⟩
    53 (.v4 0x0100007f 0x0200007f) rfl (by decide +kernel)
    ⟨[⟨true, [0, 7, 0, 53, 0, 9, 0x00, 0x24, 1], by decide⟩, ⟨true, [200, 201], by decide⟩], by decide⟩
    (by decide) 8 1 (by decide) (by decide) (by decide)

end LuatosPc.Lwip.Udp
