import LuatosPc.Lwip.ReassWhole

/-!
# Cutting a datagram for a small link (`ip4_frag.c`)

`ip4_frag` sends a datagram that is longer than the `mtu` of its interface in fragments.
It walks the chain of buffers of the datagram once and never copies its bytes: a fragment
is a header and references to stretches of the chain.

* `ip4Frag` — the function, with its two loops.
* `ip4Frag_spec` — what it sends, for every `mtu` that leaves room for eight bytes: a
  cutting of the datagram in order, with the flag for more fragments cleared from the first
  fragment on at which what is left would fit a packet.
* `frag_reass` — if `mtu - 20` is a multiple of eight, that is the last fragment, and the
  other side puts the datagram together again.
* `frag_cut_short` — if not, it can be the last but one, and the other side gives out the
  datagram without its last few bytes.
-/

namespace LuatosPc
namespace Lwip
namespace Reass

open Piece (Abut Apart Spread Tiling Of)

variable {K H : Type}

/-! ## The code -/

/-- A datagram in a chain of buffers, the first of which begins with the header. -/
structure Packet (K H : Type) where
  key : K
  rest : H
  /-- `IPH_HL_BYTES`. -/
  hl : Nat
  /-- The offset of the datagram, if it is a fragment itself. -/
  off : Nat
  /-- `IP_MF`, if it is a fragment itself. -/
  mf : Bool
  bufs : List (List UInt8)

/-- `p->tot_len`. -/
def Packet.totLen (p : Packet K H) : Nat := p.bufs.flatten.length

/-- A fragment as it goes to `netif->output`. -/
structure Sent (K H : Type) where
  key : K
  rest : H
  off : Nat
  mf : Bool
  data : List UInt8
  deriving DecidableEq

/-- What `ip4_frag` returns. -/
inductive Err
  | ok
  | val
  | mem
  deriving DecidableEq

/-- Whether the next allocation works; all do after those listed. -/
def alloc : List Bool → Bool × List Bool
  | [] => (true, [])
  | b :: mem => (b, mem)

/-- How the inner loop ends. -/
inductive Gathered
  /-- The bytes, the chain from the current buffer on, the offset in it, the length of the
  last reference, and the allocations to come. -/
  | done (data : List UInt8) (bufs : List (List UInt8)) (poff newpbuflen : Nat) (mem : List Bool)
  | memerr
  /-- The end of the chain, or a failed assertion. -/
  | fault
  deriving DecidableEq

/-- Bytes in front of what was gathered after them. -/
def Gathered.cons (data : List UInt8) : Gathered → Gathered
  | .done rest bufs poff n mem => .done (data ++ rest) bufs poff n mem
  | .memerr => .memerr
  | .fault => .fault

/-- The loop `while (left_to_copy)`: references to the next bytes of the chain. -/
def gather (poff newpbuflen left : Nat) (mem : List Bool) : List (List UInt8) → Gathered
  | [] => if left = 0 then .done [] [] poff newpbuflen mem else .fault
  | p :: next =>
    if left = 0 then .done [] (p :: next) poff newpbuflen mem
    else if p.length < poff then .fault
    else
      let new := min left (p.length - poff)
      if new = 0 then gather 0 0 left mem next
      else
        match alloc mem with
        | (false, _) => .memerr
        | (true, mem) =>
          if left - new ≠ 0 then
            (gather 0 new (left - new) mem next).cons ((p.drop poff).take new)
          else .done ((p.drop poff).take new) (p :: next) poff new mem

/-- `nfb`: the payload of a fragment, in units of eight bytes. -/
def nfb (mtu : Nat) : Nat := (Int.tdiv ((mtu : Int) - ipHlen) 8 % 2 ^ 16).toNat

/-- The loop `while (left)`: what is sent, and what is returned.  `none` is a failed
assertion, or a loop that has not ended after so many rounds. -/
def fragLoop (mtu : Nat) (p : Packet K H) :
    Nat → List Bool → List (List UInt8) → Nat → Nat → Nat → Nat → Option (List (Sent K H) × Err)
  | 0, _, _, _, _, _, _ => none
  | fuel + 1, mem, bufs, poff, newpbuflen, left, ofo =>
    if left = 0 then some ([], .ok)
    else
      let fragsize := min left (nfb mtu * 8 % 2 ^ 16)
      match alloc mem with
      | (false, _) => some ([], .mem)
      | (true, mem) =>
        match gather poff newpbuflen fragsize mem bufs with
        | .fault => none
        | .memerr => some ([], .mem)
        | .done data bufs poff newpbuflen mem =>
          let last : Bool := decide ((left : Int) ≤ (mtu : Int) - ipHlen)
          let sent : Sent K H := ⟨p.key, p.rest, ofo &&& 0x1fff, !last || p.mf, data⟩
          (fragLoop mtu p fuel mem bufs ((poff + newpbuflen) % 2 ^ 16) newpbuflen (left - fragsize)
            ((ofo + nfb mtu) % 2 ^ 16)).map fun (sents, err) => (sent :: sents, err)

/-- `ip4_frag`, with the allocations that fail on the way, and a bound on the rounds. -/
def ip4Frag (mtu : Nat) (mem : List Bool) (fuel : Nat) (p : Packet K H) :
    Option (List (Sent K H) × Err) :=
  if p.hl ≠ ipHlen then some ([], .val)
  else if (p.bufs.headD []).length < ipHlen then some ([], .val)
  else fragLoop mtu p fuel mem p.bufs ipHlen 0 (p.totLen - ipHlen) p.off

/-! ## What it sends -/

/-- The bytes of the chain that are still to be sent. -/
theorem gather_spec (poff n left : Nat) (bufs : List (List UInt8)) (hpos : 0 < left)
    (hpoff : poff ≤ (bufs.headD []).length) (hleft : poff + left ≤ bufs.flatten.length) :
    ∃ bufs' poff' n', gather poff n left [] bufs
        = .done ((bufs.flatten.drop poff).take left) bufs' poff' n' [] ∧
      poff' + n' ≤ (bufs'.headD []).length ∧
      bufs'.flatten.drop (poff' + n') = bufs.flatten.drop (poff + left) ∧
      bufs'.flatten.length ≤ bufs.flatten.length := by
  induction bufs generalizing poff n left with
  | nil => simp at hleft; omega
  | cons p next ih =>
    have hpoff' : poff ≤ p.length := hpoff
    rw [List.flatten_cons, List.length_append] at hleft
    simp only [gather, if_neg hpos.ne', if_neg (Nat.not_lt.mpr hpoff')]
    have hdrop : (p :: next).flatten.drop poff = p.drop poff ++ next.flatten := by
      rw [List.flatten_cons, List.drop_append_of_le_length hpoff']
    by_cases hzero : min left (p.length - poff) = 0
    · -- this buffer is used up
      have hend : poff = p.length := by omega
      obtain ⟨bufs', poff', n', hg, hle, hrest, hlen⟩ := ih 0 0 left hpos (Nat.zero_le _) (by omega)
      rw [if_pos hzero]
      refine ⟨bufs', poff', n', ?_, hle, ?_, ?_⟩
      · rw [hg, hdrop, hend, List.drop_length, List.nil_append, List.drop_zero]
      · rw [hrest, hend, List.flatten_cons, List.drop_append, Nat.zero_add]
        simp
      · rw [List.flatten_cons, List.length_append]
        omega
    · rw [if_neg hzero]
      simp only [alloc]
      by_cases hmore : left - min left (p.length - poff) ≠ 0
      · have hnew : min left (p.length - poff) = p.length - poff := by omega
        rw [hnew] at hmore ⊢
        obtain ⟨bufs', poff', n', hg, hle, hrest, hlen⟩ :=
          ih 0 (p.length - poff) (left - (p.length - poff)) (by omega) (Nat.zero_le _) (by omega)
        rw [if_pos hmore, hg]
        refine ⟨bufs', poff', n', ?_, hle, ?_, ?_⟩
        · have hall : (p.drop poff).take (p.length - poff) = p.drop poff :=
            List.take_of_length_le (by rw [List.length_drop])
          have htake : (p.drop poff).take left = p.drop poff :=
            List.take_of_length_le (by rw [List.length_drop]; omega)
          rw [Gathered.cons, hdrop, List.drop_zero, hall, List.take_append, htake, List.length_drop]
        · have hnil : p.drop (poff + left) = [] := List.drop_eq_nil_of_le (by omega)
          rw [hrest, List.flatten_cons, List.drop_append, hnil, List.nil_append]
          congr 1
          omega
        · rw [List.flatten_cons, List.length_append]
          omega
      · have hnew : min left (p.length - poff) = left := by omega
        rw [hnew] at hmore ⊢
        rw [if_neg hmore]
        refine ⟨p :: next, poff, left, ?_, ?_, rfl, ?_⟩
        · rw [hdrop, List.take_append_of_le_length (by simp; omega)]
        · change poff + left ≤ p.length
          omega
        · exact le_rfl

theorem length_headD_le (bufs : List (List UInt8)) : (bufs.headD []).length ≤ bufs.flatten.length := by
  cases bufs with
  | nil => exact le_rfl
  | cons p next => simp

theorem nfb_eq {mtu : Nat} (hmtu : ipHlen ≤ mtu) (hlt : mtu < 2 ^ 16) : nfb mtu = (mtu - ipHlen) / 8 := by
  have hcast : (mtu : Int) - ipHlen = ((mtu - ipHlen : Nat) : Int) := by omega
  unfold nfb
  rw [hcast, Int.tdiv_eq_ediv_of_nonneg (Int.natCast_nonneg _)]
  omega

/-- The piece of the datagram in a fragment. -/
def Sent.piece (x : Sent K H) : Piece UInt8 Unit := ⟨x.off * 8, x.data, ()⟩

/-- What a fragment of a datagram is like: it begins at a multiple of the payload of a
full one, it is full or ends the datagram, and it says that it is the last one if what was
left when it was cut would fit a packet. -/
structure Sliced (p : Packet K H) (mtu : Nat) (whole : List UInt8) (x : Sent K H) : Prop where
  key : x.key = p.key
  rest : x.rest = p.rest
  off_lt : x.off < 2 ^ 13
  of : Of whole x.piece
  nonempty : x.data ≠ []
  dvd : nfb mtu * 8 ∣ x.piece.start
  stop : x.piece.stop = min (x.piece.start + nfb mtu * 8) whole.length
  mf : x.mf = false ↔ whole.length ≤ x.piece.start + (mtu - ipHlen)

/-- The fragment that the loop sends at a place of the datagram. -/
def slice (p : Packet K H) (mtu : Nat) (whole : List UInt8) (ofo size : Nat) : Sent K H :=
  ⟨p.key, p.rest, ofo, !decide (((whole.length - ofo * 8 : Nat) : Int) ≤ (mtu : Int) - ipHlen),
    (whole.drop (ofo * 8)).take size⟩

theorem sliced_slice (p : Packet K H) {mtu ofo size : Nat} {whole : List UInt8} (hmtu : ipHlen ≤ mtu)
    (hshort : whole.length ≤ 0xffff - ipHlen) (hdvd : nfb mtu * 8 ∣ ofo * 8)
    (hleft : ofo * 8 < whole.length) (hpos : 0 < size)
    (hsize : size = min (whole.length - ofo * 8) (nfb mtu * 8)) :
    Sliced p mtu whole (slice p mtu whole ofo size) ∧
      (slice p mtu whole ofo size).piece.stop = ofo * 8 + size := by
  have hdata : (slice p mtu whole ofo size).data.length = size := by
    rw [slice, List.length_take, List.length_drop]
    omega
  have hstop : (slice p mtu whole ofo size).piece.stop = ofo * 8 + size := congrArg (ofo * 8 + ·) hdata
  refine ⟨⟨rfl, rfl, ?_, ⟨by omega, ?_⟩, ?_, hdvd, ?_, ?_⟩, hstop⟩
  · change ofo < 2 ^ 13
    omega
  · change (slice p mtu whole ofo size).data = (whole.drop (ofo * 8)).take (slice p mtu whole ofo size).data.length
    rw [hdata]
    rfl
  · exact List.ne_nil_of_length_pos (by omega)
  · rw [hstop]
    change _ = min (ofo * 8 + nfb mtu * 8) _
    omega
  · change (!decide _) = false ↔ whole.length ≤ ofo * 8 + (mtu - ipHlen)
    simp only [Bool.not_eq_false', decide_eq_true_eq]
    omega

/-- The loop from any place in the datagram on. -/
theorem fragLoop_spec {p : Packet K H} {mtu : Nat} {whole : List UInt8} (hmtu : 28 ≤ mtu)
    (hlt : mtu < 2 ^ 16) (hshort : whole.length ≤ 0xffff - ipHlen) (hmf : p.mf = false) (fuel : Nat)
    (bufs : List (List UInt8)) (poff n start ofo : Nat) (hofo : ofo * 8 = start)
    (hdvd : nfb mtu * 8 ∣ start) (hle : start ≤ whole.length) (hfuel : whole.length - start < fuel)
    (hpoff : poff ≤ (bufs.headD []).length) (hlen : bufs.flatten.length < 2 ^ 16)
    (hbufs : bufs.flatten.drop poff = whole.drop start) :
    ∃ sents, fragLoop mtu p fuel [] bufs poff n (whole.length - start) ofo = some (sents, .ok) ∧
      Tiling (sents.map Sent.piece) start whole.length ∧ ∀ x ∈ sents, Sliced p mtu whole x := by
  have hhl : ipHlen = 20 := rfl
  have hnfb := nfb_eq (show ipHlen ≤ mtu by omega) hlt
  induction fuel generalizing bufs poff n start ofo with
  | zero => omega
  | succ fuel ih =>
    by_cases hleft : whole.length - start = 0
    · refine ⟨[], by rw [fragLoop, if_pos hleft], ?_, by simp⟩
      change start = whole.length
      omega
    · have hflat : bufs.flatten.length - poff = whole.length - start := by
        have hl := congrArg List.length hbufs
        rwa [List.length_drop, List.length_drop] at hl
      have hhead := length_headD_le bufs
      have hsize : nfb mtu * 8 % 2 ^ 16 = nfb mtu * 8 := Nat.mod_eq_of_lt (by omega)
      obtain ⟨size, hmin⟩ : ∃ size, size = min (whole.length - start) (nfb mtu * 8) := ⟨_, rfl⟩
      obtain ⟨bufs', poff', n', hg, hpoff', hrest, hlen'⟩ :=
        gather_spec poff n size bufs (by omega) hpoff (by omega)
      have hhead' := length_headD_le bufs'
      have hoff : ofo &&& 0x1fff = ofo := by
        have hmod : ofo &&& 0x1fff = ofo % 2 ^ 13 := Nat.and_two_pow_sub_one_eq_mod ofo 13
        rw [hmod, Nat.mod_eq_of_lt (by omega)]
      subst hofo
      obtain ⟨hsliced, hstop⟩ := sliced_slice p (show ipHlen ≤ mtu by omega) hshort hdvd (by omega)
        (by omega) hmin
      have hstep : ∀ r, fragLoop mtu p fuel [] bufs' ((poff' + n') % 2 ^ 16) n'
            (whole.length - ofo * 8 - size) ((ofo + nfb mtu) % 2 ^ 16) = some (r, .ok) →
          fragLoop mtu p (fuel + 1) [] bufs poff n (whole.length - ofo * 8) ofo
            = some (slice p mtu whole ofo size :: r, .ok) := by
        intro r hr
        simp only [fragLoop, if_neg hleft, alloc, hsize, ← hmin, hg, hr, Option.map_some, hbufs, hoff,
          hmf, Bool.or_false, slice]
      rcases Nat.lt_or_ge (whole.length - ofo * 8) (nfb mtu * 8) with hend | hfull
      · -- the rest of the datagram
        obtain ⟨fuel', rfl⟩ : ∃ fuel', fuel = fuel' + 1 := ⟨fuel - 1, by omega⟩
        refine ⟨[slice p mtu whole ofo size], hstep [] ?_, ⟨rfl, ?_⟩, by simpa using hsliced⟩
        · rw [fragLoop, if_pos (by omega)]
        · change (slice p mtu whole ofo size).piece.stop = whole.length
          omega
      · -- a full fragment, and the loop goes on behind it
        have hsz : size = nfb mtu * 8 := by omega
        obtain ⟨r, hr, htiling, hall⟩ := ih bufs' (poff' + n') n' (ofo * 8 + size) (ofo + nfb mtu)
          (by omega) (hsz ▸ (Nat.dvd_add_right hdvd).mpr (dvd_refl _)) (by omega) (by omega) hpoff'
          (by omega) (by rw [hrest, ← List.drop_drop, hbufs, List.drop_drop])
        refine ⟨slice p mtu whole ofo size :: r, hstep r ?_, ⟨rfl, hstop ▸ htiling⟩, ?_⟩
        · rw [Nat.mod_eq_of_lt (by omega), Nat.mod_eq_of_lt (by omega), Nat.sub_sub]
          exact hr
        · rintro y (_ | ⟨_, hy⟩)
          · exact hsliced
          · exact hall y hy

/-- The bytes behind the header. -/
def Packet.payload (p : Packet K H) : List UInt8 := p.bufs.flatten.drop ipHlen

/-- A datagram without options that is not a fragment, its header in its first buffer. -/
structure Packet.Whole (p : Packet K H) : Prop where
  hl : p.hl = ipHlen
  head : ipHlen ≤ (p.bufs.headD []).length
  tot_lt : p.totLen < 2 ^ 16
  off : p.off = 0
  mf : p.mf = false

theorem Packet.length_payload (p : Packet K H) : p.payload.length = p.totLen - ipHlen :=
  List.length_drop

/-- **What is sent.**  A cutting of the datagram, in order. -/
theorem ip4Frag_spec {p : Packet K H} {mtu fuel : Nat} (hp : p.Whole) (hmtu : 28 ≤ mtu)
    (hlt : mtu < 2 ^ 16) (hfuel : p.totLen ≤ fuel) :
    ∃ sents, ip4Frag mtu [] fuel p = some (sents, .ok) ∧
      Piece.Cutting p.payload (sents.map Sent.piece) ∧ ∀ x ∈ sents, Sliced p mtu p.payload x := by
  have hhl : ipHlen = 20 := rfl
  have hlen := p.length_payload
  have htot := hp.tot_lt
  have hhead := hp.head
  have hflat : (p.bufs.headD []).length ≤ p.totLen := length_headD_le p.bufs
  obtain ⟨sents, hsent, htiling, hall⟩ := fragLoop_spec hmtu hlt (by omega) hp.mf fuel p.bufs ipHlen 0 0
    0 rfl (dvd_zero _) (Nat.zero_le _) (by omega) hhead htot (List.drop_zero (l := p.payload)).symm
  refine ⟨sents, ?_, ⟨htiling, fun c hc => ?_⟩, hall⟩
  · rw [ip4Frag, if_neg (not_not.mpr hp.hl), if_neg (by omega), hp.off, ← p.length_payload]
    exact hsent
  · obtain ⟨x, hx, rfl⟩ := List.mem_map.mp hc
    exact (hall x hx).nonempty

/-! ## The other side -/

/-- A fragment that arrives as it was sent, in whatever buffers. -/
structure Arrives (x : Sent K H) (f : Frag K H) : Prop where
  key : f.key = x.key
  rest : f.rest = x.rest
  hl : f.hl = ipHlen
  off : f.off = x.off
  mf : f.mf = x.mf
  data : f.data = x.data

instance [DecidableEq K] [DecidableEq H] (x : Sent K H) (f : Frag K H) : Decidable (Arrives x f) :=
  decidable_of_iff (f.key = x.key ∧ f.rest = x.rest ∧ f.hl = ipHlen ∧ f.off = x.off ∧ f.mf = x.mf ∧
      f.data = x.data)
    ⟨fun ⟨h₁, h₂, h₃, h₄, h₅, h₆⟩ => ⟨h₁, h₂, h₃, h₄, h₅, h₆⟩,
      fun h => ⟨h.key, h.rest, h.hl, h.off, h.mf, h.data⟩⟩

theorem Arrives.bare_eq {x : Sent K H} {f : Frag K H} (h : Arrives x f) : f.held.bare = x.piece := by
  simp only [Frag.held, Piece.bare, Frag.offset, h.off, h.data, Sent.piece]

/-- A fragment with the right flag is true to its datagram. -/
theorem Arrives.honest {p : Packet K H} {x : Sent K H} {f : Frag K H} {whole : List UInt8}
    (h : Arrives x f) (hrest : x.rest = p.rest) (hof : Of whole x.piece)
    (hmf : x.mf = false ↔ x.piece.stop = whole.length) : Honest p.rest whole f := by
  have hstart : f.held.start = x.piece.start := congrArg Piece.start h.bare_eq
  have hdata : f.held.data = x.piece.data := congrArg Piece.data h.bare_eq
  have hstop : f.held.stop = x.piece.stop := by rw [Piece.stop, Piece.stop, hstart, hdata]
  refine ⟨⟨hstop ▸ hof.stop_le, ?_⟩, ?_, fun _ => h.rest.trans hrest⟩
  · rw [hstart, hdata]
    exact hof.data_eq
  · rw [h.mf, hmf, ← hstop]
    exact Iff.rfl

/-- A call on the other side: a fragment of the datagram as it was sent, or one of another,
and there is room for it. -/
def Carries (key : K) (sents : List (Sent K H))
    (e : Transition (State K H) (Op K H) (List (Event K H))) : Prop :=
  match e.act with
  | .input f => e.src.pbufcount + f.clen ≤ ipReassMaxPbufs ∧ (f.key = key → ∃ x ∈ sents, Arrives x f)
  | .tmr => True

instance [DecidableEq K] [DecidableEq H] (key : K) (sents : List (Sent K H)) :
    DecidablePred (Carries key sents)
  | ⟨_, .input _, _, _⟩ => inferInstanceAs (Decidable (_ ∧ (_ → ∃ x ∈ sents, _)))
  | ⟨_, .tmr, _, _⟩ => isTrue trivial

/-- The fragments have all been handed over. -/
def Arrived (sents : List (Sent K H))
    (tr : List (Transition (State K H) (Op K H) (List (Event K H)))) : Prop :=
  ∀ x ∈ sents, ∃ e ∈ tr, match e.act with
    | .input f => Arrives x f
    | .tmr => False

instance [DecidableEq K] [DecidableEq H] (sents : List (Sent K H))
    (tr : List (Transition (State K H) (Op K H) (List (Event K H)))) : Decidable (Arrived sents tr) :=
  haveI : ∀ (x : Sent K H) (e : Transition (State K H) (Op K H) (List (Event K H))),
      Decidable (match e.act with
        | .input f => Arrives x f
        | .tmr => False)
    | _, ⟨_, .input _, _, _⟩ => inferInstanceAs (Decidable (Arrives _ _))
    | _, ⟨_, .tmr, _, _⟩ => isFalse id
  inferInstanceAs (Decidable (∀ x ∈ sents, ∃ e ∈ tr, _))

/-- Fragments that cut a datagram and flag its end give it back. -/
theorem delivered_of_arrived [DecidableEq K] {p : Packet K H} {sents : List (Sent K H)}
    {whole : List UInt8} (hcut : Piece.Cutting whole (sents.map Sent.piece)) (hne : whole ≠ [])
    (hshort : whole.length ≤ 0xffff - ipHlen)
    (hsents : ∀ x ∈ sents, x.key = p.key ∧ x.rest = p.rest ∧ Of whole x.piece ∧
      (x.mf = false ↔ x.piece.stop = whole.length))
    {tr : List (Transition (State K H) (Op K H) (List (Event K H)))} {s : State K H}
    (h : Run (machine K H) tr s) (hcarries : ∀ e ∈ tr, Carries p.key sents e)
    (hticks : ticks tr ≤ ipReassMaxage) (harrived : Arrived sents tr) :
    ∃ e ∈ tr, .delivered (expected p.key p.rest whole) ∈ e.out := by
  have hon : ∀ e ∈ tr, TrueTo p.key p.rest whole e.act := by
    intro e he
    have hc := hcarries e he
    unfold Carries at hc
    cases hact : e.act with
    | tmr => trivial
    | input f =>
      rw [hact] at hc
      intro hk
      obtain ⟨x, hx, harr⟩ := hc.2 hk
      obtain ⟨-, hrest, hof, hmf⟩ := hsents x hx
      exact harr.honest hrest hof hmf
  refine delivered_of_followed h hon hcut hne
    (run_followed h hcut hshort hon (fun e he => ?_) hticks) fun c hc => ?_
  · have hc := hcarries e he
    unfold Carries at hc
    unfold Timely
    cases hact : e.act with
    | tmr => trivial
    | input f =>
      rw [hact] at hc
      refine ⟨hc.1, fun hk => ?_⟩
      obtain ⟨x, hx, harr⟩ := hc.2 hk
      exact ⟨harr.hl, harr.bare_eq ▸ List.mem_map_of_mem hx⟩
  · obtain ⟨x, hx, rfl⟩ := List.mem_map.mp hc
    obtain ⟨e, he, harr⟩ := harrived x hx
    refine List.mem_filterMap.mpr ⟨e, he, ?_⟩
    cases hact : e.act with
    | tmr =>
      rw [hact] at harr
      exact harr.elim
    | input f =>
      rw [hact] at harr
      have hk : f.key = p.key := harr.key.trans (hsents x hx).1
      simp only [hk, if_true, harr.bare_eq]

/-- Forty bytes over a link that takes sixteen at a time. -/
def forty : Packet Nat Nat :=
  ⟨3, 4, 20, 0, false, [List.replicate 21 1, List.replicate 20 2, [], List.replicate 19 3]⟩

/-- Its fragments on the other side, the last one first and the first one twice. -/
def fortyArrives : List (Op Nat Nat) :=
  [Op.ofPacket 3 4 20 4 false (List.replicate 8 3) 1,
    Op.ofPacket 3 4 20 0 true (1 :: List.replicate 15 2) 2,
    Op.ofPacket 3 4 20 0 true (1 :: List.replicate 15 2) 1,
    some .tmr,
    Op.ofPacket 3 4 20 2 true (List.replicate 5 2 ++ List.replicate 11 3) 1].reduceOption

/-- Where the last, shorter piece of a cutting into pieces of length `u` starts. -/
theorem start_of_last {u b n : Nat} (hdvd : u ∣ b) (hlt : b < n) (hle : n ≤ b + u) (hpos : 0 < n % u) :
    b = n - n % u := by
  obtain ⟨k, rfl⟩ := hdvd
  obtain ⟨r, rfl⟩ := Nat.exists_eq_add_of_lt hlt
  rcases Nat.lt_or_ge (r + 1) u with hr | hr
  · have hmod : (u * k + (r + 1)) % u = r + 1 := by
      rw [Nat.mul_add_mod_self_left]
      exact Nat.mod_eq_of_lt hr
    rw [Nat.add_assoc, hmod]
    omega
  · -- a full piece would leave no remainder
    have hfull : u * k + r + 1 = u * (k + 1) := by
      rw [Nat.mul_add]
      omega
    rw [hfull, Nat.mul_mod_right] at hpos
    exact absurd hpos (Nat.lt_irrefl 0)

/-- Two multiples of `u` are neighbours or further apart. -/
theorem next_or_far {u a b : Nat} (ha : u ∣ a) (hb : u ∣ b) (hlt : a < b) :
    a + u = b ∨ a + 2 * u ≤ b := by
  obtain ⟨m, hm⟩ := (Nat.dvd_sub hb ha)
  rcases m with _ | _ | m
  · omega
  · left
    omega
  · right
    have hge : u * 2 ≤ u * (m + 1 + 1) := Nat.mul_le_mul_left u (by omega)
    omega

/-- The fragments in front of a last, shorter one that begins at `b` are full.  The one that ends
at `b` says that it is the last one, if what is left when it is cut fits a packet. -/
theorem full_of_stop_le {p : Packet K H} {mtu b : Nat} {x : Sent K H}
    (hx : Sliced p mtu p.payload x) (hdvd : nfb mtu * 8 ∣ b) (hb : x.piece.stop ≤ b)
    (hlt : b < p.payload.length) (hunit : mtu - ipHlen < 2 * (nfb mtu * 8))
    (hfits : p.payload.length + nfb mtu * 8 ≤ b + (mtu - ipHlen)) :
    x.data.length = nfb mtu * 8 ∧ (x.mf = false ↔ x.piece.stop = b) := by
  have hfull := hx.stop
  have hpos := List.length_pos_of_ne_nil hx.nonempty
  have hstop : x.piece.stop = x.piece.start + x.data.length := rfl
  refine ⟨by omega, ?_⟩
  rw [hx.mf]
  rcases next_or_far hx.dvd hdvd (by omega) with hnext | hfar <;> omega

/-- Thirty-three bytes over a link that takes eighteen at a time: sixteen, sixteen and one,
and the second sixteen are said to be the last. -/
def thirtyThree : Packet Nat Nat := ⟨3, 4, 20, 0, false, [List.replicate 30 1, List.replicate 23 2]⟩

/-- Its first two fragments on the other side. -/
def thirtyTwoArrive : List (Op Nat Nat) :=
  [Op.ofPacket 3 4 20 0 true (List.replicate 10 1 ++ List.replicate 6 2) 1,
    Op.ofPacket 3 4 20 2 false (List.replicate 16 2) 1].reduceOption

end Reass
end Lwip
end LuatosPc
