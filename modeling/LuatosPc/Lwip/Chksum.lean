/-
# The internet checksum of the stack (`inet_chksum.c`)

Every header the stack sends or accepts carries a one's complement sum of 16 bit words. The code that
computes it never sees the words of the packet: it walks a chain of buffers cut anywhere, each at an
address that may be odd, adds the words of memory as the host stores them, least significant byte
first, and puts right what the cuts and the addresses moved by swapping the bytes of the sum.

The sum itself is `weigh`: each byte counts once or 256 times, in turn. The chain loops are shown to
compute it, so neither how a packet is laid out in memory nor where it is cut can be seen in its
checksum.
-/
import LuatosPc.Base.Ones

namespace LuatosPc.Lwip.Chksum

open Ones (Same wrap fold)

/-! ## The code -/

/-- `FOLD_U32T`. -/
def foldU32T (u : Nat) : Nat := (u >>> 16) + (u &&& 0xffff)

/-- `SWAP_BYTES_IN_WORD`. -/
def swapBytesInWord (w : Nat) : Nat := ((w &&& 0xff) <<< 8) ||| ((w &&& 0xff00) >>> 8)

/-- `while (len > 1) { sum += *ps++; len -= 2; }`: the sum, and the byte left over if there is one. -/
def addWords (sum : Nat) : List UInt8 → Nat × List UInt8
  | lo :: hi :: rest => addWords ((sum + (lo.toNat + 256 * hi.toNat)) % 2 ^ 32) rest
  | rest => (sum, rest)

/-- `lwip_standard_chksum` of bytes at an odd or an even address. `t` is the word whose high byte is
the first byte of an odd address and whose low byte is the left over one. -/
def lwipStandardChksum (odd : Bool) (data : List UInt8) : Nat :=
  let (t, data) := match odd, data with
    | true, b :: rest => (256 * b.toNat, rest)
    | _, data => (0, data)
  let (sum, rest) := addWords 0 data
  let t := t + ((rest.head?.map UInt8.toNat).getD 0)
  let sum := foldU32T (foldU32T ((sum + t) % 2 ^ 32))
  (if odd then swapBytesInWord sum else sum) % 2 ^ 16

/-- A buffer of a chain: whether its payload starts at an odd address, and the payload, whose length is
the `u16_t` field `len`. -/
structure Pbuf where
  odd : Bool
  payload : List UInt8
  len_lt : payload.length < 2 ^ 16
  deriving DecidableEq

/-- The bytes of a chain. -/
def bytes (p : List Pbuf) : List UInt8 := p.flatMap Pbuf.payload

/-- `if (q->len % 2 != 0) { swapped = !swapped; acc = SWAP_BYTES_IN_WORD(acc); }` -/
def turn (len acc : Nat) (swapped : Bool) : Nat × Bool :=
  if len % 2 ≠ 0 then (swapBytesInWord acc, !swapped) else (acc, swapped)

/-- The loop over the chain in `inet_chksum_pbuf` and in `inet_cksum_pseudo_base`. -/
def addChain (acc : Nat) (swapped : Bool) : List Pbuf → Nat × Bool
  | [] => (acc, swapped)
  | q :: rest =>
    let acc := foldU32T ((acc + lwipStandardChksum q.odd q.payload) % 2 ^ 32)
    let (acc, swapped) := turn q.payload.length acc swapped
    addChain acc swapped rest

/-- The loop in `inet_cksum_pseudo_partial_base`, over the first `chksum_len` bytes. `none` is a failed
`LWIP_ASSERT("delete me", chksum_len < 0x7fff)`. -/
def addPartial (acc : Nat) (swapped : Bool) (chksumLen : Nat) : List Pbuf → Option (Nat × Bool)
  | [] => some (acc, swapped)
  | q :: rest =>
    if chksumLen > 0 then
      let chklen := if q.payload.length > chksumLen then chksumLen else q.payload.length
      let acc := (acc + lwipStandardChksum q.odd (q.payload.take chklen)) % 2 ^ 32
      let chksumLen := chksumLen - chklen
      if chksumLen < 0x7fff then
        let (acc, swapped) := turn q.payload.length (foldU32T acc) swapped
        addPartial acc swapped chksumLen rest
      else none
    else some (acc, swapped)

/-- `if (swapped) acc = SWAP_BYTES_IN_WORD(acc);` -/
def unswap : Nat × Bool → Nat
  | (acc, swapped) => if swapped then swapBytesInWord acc else acc

/-- `(u16_t)~(acc & 0xffffUL)` -/
def complement (acc : Nat) : Nat := 0xffff - (acc &&& 0xffff)

/-- `inet_chksum`. -/
def inetChksum (odd : Bool) (data : List UInt8) : Nat := complement (lwipStandardChksum odd data)

/-- `inet_chksum_pbuf`. -/
def inetChksumPbuf (p : List Pbuf) : Nat := complement (unswap (addChain 0 false p))

/-- `lwip_htons`: on a little endian host, `PP_HTONS`, the same swap. -/
def lwipHtons (x : Nat) : Nat := swapBytesInWord x

/-- What `inet_cksum_pseudo_base` and its partial variant do after their loop: the protocol and its
length are added and the sum is folded. -/
def finish (proto : UInt8) (protoLen : UInt16) (acc : Nat) : Nat :=
  let acc := (acc + lwipHtons proto.toNat) % 2 ^ 32
  let acc := (acc + lwipHtons protoLen.toNat) % 2 ^ 32
  complement (foldU32T (foldU32T acc))

/-- `inet_cksum_pseudo_base`. -/
def inetCksumPseudoBase (p : List Pbuf) (proto : UInt8) (protoLen : UInt16) (acc : Nat) : Nat :=
  finish proto protoLen (unswap (addChain acc false p))

/-- `inet_cksum_pseudo_partial_base`. -/
def inetCksumPseudoPartialBase (p : List Pbuf) (proto : UInt8) (protoLen : UInt16)
    (chksumLen : UInt16) (acc : Nat) : Option Nat :=
  (addPartial acc false chksumLen.toNat p).map fun r => finish proto protoLen (unswap r)

/-- The two addresses of a datagram, in network byte order: one word each, or four. -/
inductive IpAddrs where
  | v4 (src dest : UInt32)
  | v6 (src dest : Fin 4 → UInt32)

/-- The words in the order in which they are added. -/
def IpAddrs.words : IpAddrs → List UInt32
  | .v4 src dest => [src, dest]
  | .v6 src dest => (List.finRange 4).flatMap fun part => [src part, dest part]

/-- Both halves of each address word. -/
def addAddrs (acc : Nat) : List UInt32 → Nat
  | [] => acc
  | addr :: rest =>
    let acc := (acc + (addr.toNat &&& 0xffff)) % 2 ^ 32
    addAddrs ((acc + ((addr.toNat >>> 16) &&& 0xffff)) % 2 ^ 32) rest

/-- The sum of the addresses with which `inet_chksum_pseudo`, `ip6_chksum_pseudo` and their partial
variants start. -/
def addrAcc (addrs : IpAddrs) : Nat := foldU32T (foldU32T (addAddrs 0 addrs.words))

/-- `ip_chksum_pseudo`. -/
def ipChksumPseudo (p : List Pbuf) (proto : UInt8) (protoLen : UInt16) (addrs : IpAddrs) : Nat :=
  inetCksumPseudoBase p proto protoLen (addrAcc addrs)

/-- `ip_chksum_pseudo_partial`. -/
def ipChksumPseudoPartial (p : List Pbuf) (proto : UInt8) (protoLen chksumLen : UInt16)
    (addrs : IpAddrs) : Option Nat :=
  inetCksumPseudoPartialBase p proto protoLen chksumLen (addrAcc addrs)

/-! ## The sum -/

/-- How often a byte counts in a word of a little endian host. -/
def weight (odd : Bool) : Nat := if odd then 256 else 1

/-- The sum of the words of a packet, from a byte at an odd or an even place on. -/
def weigh (odd : Bool) : List UInt8 → Nat
  | [] => 0
  | b :: rest => weight odd * b.toNat + weigh (!odd) rest

theorem weigh_append (odd : Bool) (d e : List UInt8) :
    weigh odd (d ++ e) = weigh odd d + weigh (odd ^^ decide (d.length % 2 ≠ 0)) e := by
  induction d generalizing odd with
  | nil => simp [weigh]
  | cons b d ih =>
    rw [List.cons_append, weigh, weigh, ih, Nat.add_assoc]
    congr 3
    rw [List.length_cons]
    cases odd <;> rcases Nat.mod_two_eq_zero_or_one d.length with h | h <;> simp [h, Nat.add_mod]

theorem weigh_le (odd : Bool) (d : List UInt8) : weigh odd d ≤ 65280 * d.length := by
  induction d generalizing odd with
  | nil => simp [weigh]
  | cons b d ih =>
    have hb : b.toNat ≤ 255 := Nat.le_of_lt_succ b.toNat_lt
    have hrest := ih (!odd)
    rw [weigh, List.length_cons]
    cases odd <;> simp only [weight, Bool.false_eq_true, if_false, if_true] <;> omega

/-- Moving every byte by one place is multiplying by 256. -/
theorem same_shift (odd : Bool) (d : List UInt8) :
    Same 65535 (256 * weigh odd d) (weigh (!odd) d) := by
  induction d generalizing odd with
  | nil => exact Same.refl _ _
  | cons b d ih =>
    rw [weigh, weigh, Nat.mul_add]
    refine Same.add ?_ (ih (!odd))
    cases odd with
    | false => simpa [weight] using Same.refl 65535 (256 * b.toNat)
    | true =>
      have h := Ones.same_carry 65535 b.toNat 0
      simpa [weight, ← Nat.mul_assoc] using h

/-! ## The code computes the sum -/

theorem foldU32T_eq (u : Nat) : foldU32T u = fold 65535 u := by
  have hmod : u &&& 0xffff = u % 2 ^ 16 := Nat.and_two_pow_sub_one_eq_mod u 16
  norm_num [foldU32T, hmod, Nat.shiftRight_eq_div_pow, fold]

theorem swapBytesInWord_eq {w : Nat} (hw : w ≤ 65535) :
    swapBytesInWord w = 256 * (w % 256) + w / 256 := by
  have hlow : w &&& 0xff = w % 256 := Nat.and_two_pow_sub_one_eq_mod w 8
  have hhigh : (w &&& 0xff00) >>> 8 = w / 256 := by
    rw [Nat.shiftRight_and_distrib, Nat.shiftRight_eq_div_pow]
    have hmod := Nat.and_two_pow_sub_one_eq_mod (w / 256) 8
    rw [Nat.mod_eq_of_lt (by omega)] at hmod
    exact hmod
  unfold swapBytesInWord
  rw [hlow, hhigh, ← Nat.shiftLeft_add_eq_or_of_lt (by omega), Nat.shiftLeft_eq]
  omega

theorem swapBytesInWord_le {w : Nat} (hw : w ≤ 65535) : swapBytesInWord w ≤ 65535 := by
  rw [swapBytesInWord_eq hw]
  omega

/-- Swapping the bytes of a sum is multiplying it by 256. -/
theorem same_swapBytesInWord {w : Nat} (hw : w ≤ 65535) :
    Same 65535 (swapBytesInWord w) (256 * w) := by
  rw [swapBytesInWord_eq hw]
  have h := Ones.same_carry 65535 (w / 256) (256 * (w % 256))
  have hw' : (65535 + 1) * (w / 256) + 256 * (w % 256) = 256 * w := by omega
  rw [hw', Nat.add_comm] at h
  exact h.symm

theorem same_two_swaps (a : Nat) : Same 65535 (256 * (256 * a)) a := by
  have h := Ones.same_carry 65535 a 0
  rwa [Nat.add_zero, Nat.add_zero, show (65535 + 1) * a = 256 * (256 * a) by omega] at h

/-- As long as the sum fits in 32 bits, the loop adds up whole words and leaves at most one byte. -/
theorem addWords_spec (sum : Nat) (data : List UInt8) (h : sum + weigh false data < 2 ^ 32) :
    (addWords sum data).1 + (((addWords sum data).2.head?.map UInt8.toNat).getD 0)
      = sum + weigh false data := by
  fun_induction addWords sum data with
  | case1 sum lo hi rest ih =>
    simp only [weigh, weight, Bool.not_false, Bool.not_true, Bool.false_eq_true, if_false, if_true] at h ⊢
    rw [Nat.mod_eq_of_lt (by omega)] at ih ⊢
    rw [ih (by omega)]
    omega
  | case2 sum rest hrest =>
    match rest, hrest with
    | [], _ => simp [weigh]
    | [b], _ => simp [weigh, weight]
    | lo :: hi :: rest, hrest => exact absurd rfl (hrest lo hi rest)

/-- The routine computes the wrapped sum of its bytes, wherever they lie. -/
theorem lwipStandardChksum_eq (odd : Bool) {data : List UInt8} (h : data.length < 2 ^ 16) :
    lwipStandardChksum odd data = wrap 65535 (weigh false data) := by
  have hbound : ∀ o, weigh o data < 2 ^ 32 := fun o => by
    have hle := weigh_le o data
    omega
  have hwrap : ∀ u, wrap 65535 u ≤ 65535 := Ones.wrap_le (by decide)
  have hlt : ∀ u, wrap 65535 u % 2 ^ 16 = wrap 65535 u := fun u =>
    Nat.mod_eq_of_lt (Nat.lt_succ_of_le (hwrap u))
  cases odd with
  | false =>
    have hsum := addWords_spec 0 data (by rw [Nat.zero_add]; exact hbound false)
    simp only [lwipStandardChksum, Bool.false_eq_true, if_false, foldU32T_eq]
    rw [Nat.zero_add, hsum, Nat.zero_add, Nat.mod_eq_of_lt (hbound false),
      Ones.fold_fold_eq_wrap (hbound false), hlt]
  | true =>
    match data with
    | [] => decide
    | b :: rest =>
      -- from an odd address the words are those of the other alignment
      have hw : weigh true (b :: rest) = 256 * b.toNat + weigh false rest := rfl
      have hb := hbound true
      have hsum := addWords_spec 0 rest (by omega)
      have htotal : (addWords 0 rest).1
          + (256 * b.toNat + ((addWords 0 rest).2.head?.map UInt8.toNat).getD 0)
          = weigh true (b :: rest) := by omega
      simp only [lwipStandardChksum, if_true, foldU32T_eq]
      have hle := swapBytesInWord_le (hwrap (weigh true (b :: rest)))
      rw [htotal, Nat.mod_eq_of_lt hb, Ones.fold_fold_eq_wrap hb, Nat.mod_eq_of_lt (by omega)]
      refine Same.eq_wrap ?_ hle
      exact ((same_swapBytesInWord (hwrap _)).trans ((Ones.same_wrap _ _).mul_left 256)).trans
        (same_shift true (b :: rest))

/-! ### Chains -/

theorem same_weight_turn (len : Nat) {acc : Nat} (swapped : Bool) (hacc : acc ≤ 65535) :
    (turn len acc swapped).1 ≤ 65535 ∧
      Same 65535 (weight (turn len acc swapped).2 * (turn len acc swapped).1)
        (weight swapped * acc) := by
  unfold turn
  split
  case isTrue =>
    refine ⟨swapBytesInWord_le hacc, ?_⟩
    have hswap := same_swapBytesInWord hacc
    cases swapped with
    | false => simpa [weight] using (hswap.mul_left 256).trans (same_two_swaps acc)
    | true => simpa [weight] using hswap
  case isFalse => exact ⟨hacc, Same.refl _ _⟩

theorem bytes_cons (q : Pbuf) (rest : List Pbuf) : bytes (q :: rest) = q.payload ++ bytes rest :=
  List.flatMap_cons

theorem turn_snd (len acc : Nat) (swapped : Bool) :
    (turn len acc swapped).2 = (swapped ^^ decide (len % 2 ≠ 0)) := by
  unfold turn
  split
  case isTrue h => simp [h]
  case isFalse h => simp only [h, decide_false, Bool.xor_false]

/-- One buffer: whatever way round the sum is kept, its bytes are added at their places. -/
theorem same_add_bytes {acc : Nat} (swapped odd : Bool) {data : List UInt8} (hacc : acc ≤ 65535)
    (h : data.length < 2 ^ 16) :
    foldU32T ((acc + lwipStandardChksum odd data) % 2 ^ 32) ≤ 65535 ∧
      Same 65535 (weight swapped * foldU32T ((acc + lwipStandardChksum odd data) % 2 ^ 32))
        (weight swapped * acc + weigh swapped data) := by
  have hwrap : wrap 65535 (weigh false data) ≤ 65535 := Ones.wrap_le (by decide) _
  rw [lwipStandardChksum_eq odd h, Nat.mod_eq_of_lt (by omega), foldU32T_eq]
  refine ⟨Ones.fold_add_le hacc hwrap, ?_⟩
  have hsum : Same 65535 (fold 65535 (acc + wrap 65535 (weigh false data)))
      (acc + weigh false data) :=
    (Ones.same_fold _ _).trans ((Same.refl _ acc).add (Ones.same_wrap _ _))
  refine (hsum.mul_left (weight swapped)).trans ?_
  rw [Nat.mul_add]
  refine (Same.refl _ _).add ?_
  cases swapped with
  | false => simpa [weight] using Same.refl 65535 (weigh false data)
  | true => exact same_shift false data

/-- The loop keeps the sum of the bytes so far, up to the swap it remembers. -/
theorem addChain_spec {acc : Nat} (swapped : Bool) (p : List Pbuf) (hacc : acc ≤ 65535) :
    (addChain acc swapped p).1 ≤ 65535 ∧
      Same 65535 (weight (addChain acc swapped p).2 * (addChain acc swapped p).1)
        (weight swapped * acc + weigh swapped (bytes p)) := by
  induction p generalizing acc swapped with
  | nil => exact ⟨hacc, Same.refl _ _⟩
  | cons q rest ih =>
    obtain ⟨hle, hadd⟩ := same_add_bytes swapped q.odd hacc q.len_lt
    obtain ⟨hle', hturn⟩ := same_weight_turn q.payload.length swapped hle
    obtain ⟨hlast, hrest⟩ := ih (turn q.payload.length _ swapped).2 hle'
    refine ⟨hlast, hrest.trans ?_⟩
    rw [bytes_cons, weigh_append, ← turn_snd, ← Nat.add_assoc]
    exact (hturn.trans hadd).add (Same.refl _ _)

theorem same_unswap {r : Nat × Bool} (h : r.1 ≤ 65535) :
    unswap r ≤ 65535 ∧ Same 65535 (unswap r) (weight r.2 * r.1) := by
  obtain ⟨acc, swapped⟩ := r
  cases swapped with
  | false => exact ⟨h, by simpa [unswap, weight] using Same.refl 65535 acc⟩
  | true => exact ⟨swapBytesInWord_le h, same_swapBytesInWord h⟩

theorem unswap_addChain {acc : Nat} (p : List Pbuf) (hacc : acc ≤ 65535) :
    unswap (addChain acc false p) = wrap 65535 (acc + weigh false (bytes p)) := by
  obtain ⟨hle, hsame⟩ := addChain_spec false p hacc
  obtain ⟨hle', hun⟩ := same_unswap hle
  refine (hun.trans hsame).eq_wrap hle' |>.trans ?_
  rw [weight, if_neg Bool.false_ne_true, Nat.one_mul]

/-- The partial loop keeps the sum of the bytes it covers. The last buffer may be cut in the middle and
turned by its whole length all the same: nothing is added after it. -/
theorem addPartial_spec {acc : Nat} (swapped : Bool) (n : Nat) (p : List Pbuf) (hacc : acc ≤ 65535)
    {r : Nat × Bool} (h : addPartial acc swapped n p = some r) :
    r.1 ≤ 65535 ∧
      Same 65535 (weight r.2 * r.1) (weight swapped * acc + weigh swapped ((bytes p).take n)) := by
  induction p generalizing acc swapped n with
  | nil =>
    cases h
    exact ⟨hacc, by rw [bytes, List.flatMap_nil, List.take_nil]; exact Same.refl _ _⟩
  | cons q rest ih =>
    simp only [addPartial] at h
    split at h
    case isFalse hn =>
      cases h
      rw [Nat.eq_zero_of_not_pos hn, List.take_zero]
      exact ⟨hacc, Same.refl _ _⟩
    case isTrue =>
      have hmin : (if q.payload.length > n then n else q.payload.length) = min n q.payload.length := by
        split <;> omega
      have htake : (bytes (q :: rest)).take n
          = q.payload.take n ++ (bytes rest).take (n - q.payload.length) := by
        rw [bytes_cons, List.take_append]
      rw [hmin, ← List.take_eq_take_min, show n - min n q.payload.length = n - q.payload.length by omega]
        at h
      split at h
      case isFalse => cases h
      case isTrue =>
        have hlen : (q.payload.take n).length < 2 ^ 16 :=
          lt_of_le_of_lt (List.length_take_le' _ _) q.len_lt
        obtain ⟨hle, hadd⟩ := same_add_bytes swapped q.odd hacc hlen
        obtain ⟨hle', hturn⟩ := same_weight_turn q.payload.length swapped hle
        obtain ⟨hlast, hrest⟩ := ih (turn q.payload.length _ swapped).2 _ hle' h
        refine ⟨hlast, hrest.trans ?_⟩
        rw [htake, weigh_append, ← Nat.add_assoc]
        refine (hturn.trans hadd).add ?_
        rcases Nat.lt_or_ge n q.payload.length with hcut | hwhole
        · rw [Nat.sub_eq_zero_of_le hcut.le, List.take_zero]
          exact Same.refl _ _
        · rw [List.take_of_length_le hwhole, ← turn_snd]
          exact Same.refl _ _

/-- The assertion in the loop fails exactly when the first buffer leaves 32767 bytes or more to cover. -/
theorem isSome_addPartial (acc : Nat) (swapped : Bool) (n : Nat) (p : List Pbuf) :
    (addPartial acc swapped n p).isSome ↔ ∀ q ∈ p.head?, n - q.payload.length < 0x7fff := by
  induction p generalizing acc swapped n with
  | nil => simp [addPartial]
  | cons q rest ih =>
    simp only [addPartial, List.head?_cons, Option.mem_some_iff, forall_eq']
    split
    case isFalse hn => simp; omega
    case isTrue =>
      rw [show (n - if q.payload.length > n then n else q.payload.length) = n - q.payload.length by
        split <;> omega]
      split
      case isFalse h => simp [h]
      case isTrue h =>
        rw [ih]
        exact iff_of_true (fun q' _ => lt_of_le_of_lt (Nat.sub_le _ _) h) h

/-! ### The checksums as they are stored -/

theorem complement_of_le {acc : Nat} (h : acc ≤ 65535) : complement acc = 65535 - acc := by
  have hmod : acc &&& 0xffff = acc % 2 ^ 16 := Nat.and_two_pow_sub_one_eq_mod acc 16
  rw [complement, hmod, Nat.mod_eq_of_lt (by omega)]

theorem inetChksumPbuf_eq (p : List Pbuf) :
    inetChksumPbuf p = 65535 - wrap 65535 (weigh false (bytes p)) := by
  rw [inetChksumPbuf, unswap_addChain p (Nat.zero_le _), Nat.zero_add,
    complement_of_le (Ones.wrap_le (by decide) _)]

/-- Both halves of the address words. -/
def addrSum (words : List UInt32) : Nat :=
  (words.map fun w => w.toNat % 2 ^ 16 + w.toNat / 2 ^ 16).sum

/-- The part of the sum that does not come from the packet: the pseudo header. -/
def headSum (addrs : IpAddrs) (proto : UInt8) (protoLen : UInt16) : Nat :=
  addrSum addrs.words + lwipHtons proto.toNat + lwipHtons protoLen.toNat

theorem addrSum_le (words : List UInt32) : addrSum words ≤ 131070 * words.length := by
  induction words with
  | nil => simp [addrSum]
  | cons w words ih =>
    have hw := w.toNat_lt
    simp only [addrSum, List.map_cons, List.sum_cons, List.length_cons] at ih ⊢
    omega

theorem length_words (addrs : IpAddrs) : addrs.words.length ≤ 8 := by
  cases addrs <;> simp [IpAddrs.words, List.finRange]

theorem addAddrs_eq (acc : Nat) (words : List UInt32) (h : acc + addrSum words < 2 ^ 32) :
    addAddrs acc words = acc + addrSum words := by
  induction words generalizing acc with
  | nil => rfl
  | cons w words ih =>
    have hw := w.toNat_lt
    have hlow : w.toNat &&& 0xffff = w.toNat % 2 ^ 16 := Nat.and_two_pow_sub_one_eq_mod _ 16
    have hhigh : (w.toNat >>> 16) &&& 0xffff = w.toNat / 2 ^ 16 := by
      have hmod := Nat.and_two_pow_sub_one_eq_mod (w.toNat / 2 ^ 16) 16
      rw [Nat.shiftRight_eq_div_pow]
      exact hmod.trans (Nat.mod_eq_of_lt (by omega))
    have hsum : addrSum (w :: words) = w.toNat % 2 ^ 16 + w.toNat / 2 ^ 16 + addrSum words := by
      simp only [addrSum, List.map_cons, List.sum_cons]
    rw [hsum] at h ⊢
    rw [addAddrs, hlow, hhigh, Nat.mod_eq_of_lt (a := acc + _) (by omega), Nat.mod_eq_of_lt (by omega),
      ih _ (by omega)]
    omega

theorem addrAcc_eq (addrs : IpAddrs) : addrAcc addrs = wrap 65535 (addrSum addrs.words) := by
  have hle := addrSum_le addrs.words
  have hlen := length_words addrs
  have hlt : addrSum addrs.words < 2 ^ 32 := by omega
  rw [addrAcc, addAddrs_eq 0 _ (by omega), Nat.zero_add, foldU32T_eq, foldU32T_eq,
    Ones.fold_fold_eq_wrap hlt]

theorem finish_eq (proto : UInt8) (protoLen : UInt16) {acc : Nat} (hacc : acc ≤ 65535) :
    finish proto protoLen acc
      = 65535 - wrap 65535 (acc + (lwipHtons proto.toNat + lwipHtons protoLen.toNat)) := by
  have hproto : lwipHtons proto.toNat ≤ 65535 := swapBytesInWord_le (by have := proto.toNat_lt; omega)
  have hlen : lwipHtons protoLen.toNat ≤ 65535 :=
    swapBytesInWord_le (Nat.le_of_lt_succ protoLen.toNat_lt)
  simp only [finish]
  rw [Nat.mod_eq_of_lt (a := acc + _) (by omega), Nat.mod_eq_of_lt (by omega), foldU32T_eq,
    foldU32T_eq, Ones.fold_fold_eq_wrap (by omega), complement_of_le (Ones.wrap_le (by decide) _),
    Nat.add_assoc]

/-- A chain sum started with the addresses and finished with the protocol is the sum of the pseudo
header and the covered bytes. -/
theorem finish_unswap (addrs : IpAddrs) (proto : UInt8) (protoLen : UInt16) {r : Nat × Bool}
    {d : List UInt8} (hle : r.1 ≤ 65535)
    (hsame : Same 65535 (weight r.2 * r.1) (weight false * addrAcc addrs + weigh false d)) :
    finish proto protoLen (unswap r)
      = 65535 - wrap 65535 (headSum addrs proto protoLen + weigh false d) := by
  obtain ⟨hle', hun⟩ := same_unswap hle
  rw [finish_eq proto protoLen hle']
  congr 1
  refine Ones.wrap_eq_of_same (by decide) ?_
  have haddr : Same 65535 (weight false * addrAcc addrs) (addrSum addrs.words) := by
    rw [addrAcc_eq, weight, if_neg Bool.false_ne_true, Nat.one_mul]
    exact Ones.same_wrap _ _
  have hsum := ((hun.trans hsame).trans (haddr.add (Same.refl _ (weigh false d)))).add
    (Same.refl 65535 (lwipHtons proto.toNat + lwipHtons protoLen.toNat))
  rwa [Nat.add_right_comm, ← Nat.add_assoc (addrSum addrs.words), ← headSum] at hsum

theorem addrAcc_le (addrs : IpAddrs) : addrAcc addrs ≤ 65535 := by
  rw [addrAcc_eq]
  exact Ones.wrap_le (by decide) _

theorem ipChksumPseudo_eq (p : List Pbuf) (proto : UInt8) (protoLen : UInt16) (addrs : IpAddrs) :
    ipChksumPseudo p proto protoLen addrs
      = 65535 - wrap 65535 (headSum addrs proto protoLen + weigh false (bytes p)) := by
  obtain ⟨hle, hsame⟩ := addChain_spec false p (addrAcc_le addrs)
  exact finish_unswap addrs proto protoLen hle hsame

theorem ipChksumPseudoPartial_eq (p : List Pbuf) (proto : UInt8) (protoLen chksumLen : UInt16)
    (addrs : IpAddrs) :
    ipChksumPseudoPartial p proto protoLen chksumLen addrs
      = if ∀ q ∈ p.head?, chksumLen.toNat - q.payload.length < 0x7fff then
          some (65535 - wrap 65535 (headSum addrs proto protoLen
            + weigh false ((bytes p).take chksumLen.toNat)))
        else none := by
  have hsome := isSome_addPartial (addrAcc addrs) false chksumLen.toNat p
  unfold ipChksumPseudoPartial inetCksumPseudoPartialBase
  cases hr : addPartial (addrAcc addrs) false chksumLen.toNat p with
  | none =>
    rw [hr] at hsome
    rw [if_neg (fun h => by simpa using hsome.mpr h)]
    rfl
  | some r =>
    rw [hr] at hsome
    obtain ⟨hle, hsame⟩ := addPartial_spec false _ p (addrAcc_le addrs) hr
    rw [if_pos (hsome.mp rfl), Option.map_some, finish_unswap addrs proto protoLen hle hsame]

/-! ## What a checksum depends on -/

/-- The first `n` bytes of a buffer. -/
def Pbuf.take (q : Pbuf) (n : Nat) : Pbuf :=
  ⟨q.odd, q.payload.take n, lt_of_le_of_lt (List.length_take_le' _ _) q.len_lt⟩

@[simp] theorem payload_take (q : Pbuf) (n : Nat) : (q.take n).payload = q.payload.take n := rfl

theorem bytes_singleton (q : Pbuf) : bytes [q] = q.payload := by
  rw [bytes_cons, bytes, List.flatMap_nil, List.append_nil]

/-- A chain of buffers has the checksum its bytes have in one piece, however the chain is cut and at
whatever addresses the pieces lie: the plain one, the one with a pseudo header, and, where the
assertion in its loop holds, the one over the first bytes only. -/
theorem chksum_ignores_layout (p : List Pbuf) (flat : Pbuf) (h : flat.payload = bytes p)
    (proto : UInt8) (protoLen chksumLen : UInt16) (addrs : IpAddrs) :
    inetChksum flat.odd flat.payload = 65535 - wrap 65535 (weigh false (bytes p)) ∧
    inetChksumPbuf p = inetChksum flat.odd flat.payload ∧
    ipChksumPseudo p proto protoLen addrs = ipChksumPseudo [flat] proto protoLen addrs ∧
    ipChksumPseudoPartial p proto protoLen chksumLen addrs
      = if ∀ q ∈ p.head?, chksumLen.toNat - q.payload.length < 0x7fff then
          some (ipChksumPseudo [flat.take chksumLen.toNat] proto protoLen addrs)
        else none := by
  have hflat : inetChksum flat.odd flat.payload = 65535 - wrap 65535 (weigh false (bytes p)) := by
    rw [inetChksum, lwipStandardChksum_eq flat.odd flat.len_lt, h,
      complement_of_le (Ones.wrap_le (by decide) _)]
  refine ⟨hflat, (inetChksumPbuf_eq p).trans hflat.symm, ?_, ?_⟩
  · rw [ipChksumPseudo_eq, ipChksumPseudo_eq, bytes_singleton, h]
  · rw [ipChksumPseudoPartial_eq, ipChksumPseudo_eq, bytes_singleton, payload_take, h]

/-- Five bytes in three buffers, two of them at odd addresses, the first two of odd length. -/
theorem chksum_ignores_layout_threePieces :
    (⟨true, [0x45, 0x00, 0x1c, 0x99, 0x07], by decide⟩ : Pbuf).payload
        = bytes [⟨true, [0x45], by decide⟩, ⟨false, [0x00, 0x1c, 0x99], by decide⟩,
            ⟨true, [0x07], by decide⟩] ∧
      inetChksumPbuf [⟨true, [0x45], by decide⟩, ⟨false, [0x00, 0x1c, 0x99], by decide⟩,
          ⟨true, [0x07], by decide⟩] = 0x6697 := by
  refine ⟨by decide, ?_⟩
  have h := chksum_ignores_layout
    [⟨true, [0x45], by decide⟩, ⟨false, [0x00, 0x1c, 0x99], by decide⟩, ⟨true, [0x07], by decide⟩]
    ⟨true, [0x45, 0x00, 0x1c, 0x99, 0x07], by decide⟩ (by decide) 17 5 2 (.v4 0 0)
  rw [h.2.1]
  decide +kernel

end LuatosPc.Lwip.Chksum
