import LuatosPc.Base.Machine
import LuatosPc.Base.Tiles

/-!
# Reassembly of IP fragments (`ip4_frag.c`)

A datagram that was cut on its way arrives in fragments, in any order, mixed with the
fragments of others, some twice and some not at all.  `ip4_reass` keeps an entry for each
datagram it has begun, with the fragments so far in the order of their places, and gives
out a datagram when the last hole in it is closed.  At most `IP_REASS_MAX_PBUFS` buffers
are held: for more, the entries that have waited longest are dropped, and so is, by
`ip_reass_tmr`, every entry after a while.

* `machine` — the two entry points, on fragments as `ip4_input` hands them over.
* `place_ok`, `place_error`, `chainFrag_ok`, `chainFrag_error` — where a fragment goes, when it
  is turned away, and when the datagram is finished.
-/

namespace LuatosPc
namespace Lwip
namespace Reass

/-- `IP_HLEN`. -/
def ipHlen : Nat := 20

/-- `IP_REASS_MAX_PBUFS`, with a `PBUF_POOL_BUFSIZE` of 256. -/
def ipReassMaxPbufs : Nat := 10 * ((1500 + 256 - 1) / 256)

/-- `MEMP_NUM_REASSDATA`, the size of the pool of entries. -/
def mempNumReassdata : Nat := ipReassMaxPbufs

/-- `IP_REASS_MAXAGE`. -/
def ipReassMaxage : Nat := 15

/-! ## The code -/

/-- A fragment.  `ip4_input` has checked that the header is complete and has cut the
buffers down to the length it states, and calls `ip4_reass` only if the offset or the
flag for more fragments is set. -/
structure Frag (K H : Type) where
  /-- The addresses and the identification: what datagram it belongs to. -/
  key : K
  /-- The fields of the header that are only carried along. -/
  rest : H
  /-- `IPH_HL_BYTES`. -/
  hl : Nat
  /-- The offset, in units of eight bytes. -/
  off : Nat
  /-- `IP_MF`. -/
  mf : Bool
  /-- What follows the header. -/
  data : List UInt8
  /-- `pbuf_clen`: in how many buffers it came. -/
  clen : Nat
  off_lt : off < 2 ^ 13
  isFragment : off ≠ 0 ∨ mf = true
  hl_le : ipHlen ≤ hl
  len_lt : hl + data.length < 2 ^ 16
  clen_pos : 0 < clen

/-- `IPH_OFFSET_BYTES`. -/
def Frag.offset {K H : Type} (f : Frag K H) : Nat := f.off * 8

/-- `(u16_t)(offset + len)` -/
def Frag.stop16 {K H : Type} (f : Frag K H) : Nat := (f.offset + f.data.length) % 2 ^ 16

/-- A fragment in an entry, with `struct ip_reass_helper` in the place of its header: its
start and end, its bytes and its buffers. -/
abbrev Held := Piece UInt8 Nat

/-- `struct ip_reassdata`. -/
structure Reassdata (K H : Type) where
  /-- Of `iphdr`: what datagram this is. -/
  key : K
  /-- Of `iphdr`: the fields that are carried along. -/
  rest : H
  /-- Of `iphdr`: the offset, in units of eight bytes. -/
  off : Nat
  /-- The fragments, linked through their helpers. -/
  p : List Held
  datagramLen : Nat
  /-- `IP_REASS_FLAG_LASTFRAG`. -/
  last : Bool
  timer : Nat
  deriving DecidableEq

/-- A datagram as it is given out: its header, with the length field, and its bytes. -/
structure Datagram (K H : Type) where
  key : K
  rest : H
  /-- `IPH_LEN`. -/
  len : Nat
  data : List UInt8
  deriving DecidableEq

/-- What leaves the module. -/
inductive Event (K H : Type)
  /-- The chain that `ip4_reass` returns. -/
  | delivered (d : Datagram K H)
  /-- `icmp_time_exceeded` on the first fragment. -/
  | timeExceeded (key : K) (rest : H) (data : List UInt8)
  deriving DecidableEq

/-- `reassdatagrams` and `ip_reass_pbufcount`. -/
structure State (K H : Type) where
  reassdatagrams : List (Reassdata K H)
  pbufcount : Nat
  deriving DecidableEq

/-- Why a fragment is not taken. -/
inductive Refusal
  /-- `IP_REASS_VALIDATE_PBUF_DROPPED`. -/
  | dropped
  /-- A failed assertion. -/
  | assertion
  deriving DecidableEq

/-- Where a fragment goes: the fragments before and after its place, and whether those
before it leave no hole, also to it. -/
structure Place where
  before : List Held
  after : List Held
  valid : Bool

/-- The loop of `ip_reass_chain_frag_into_datagram_and_validate` over the fragments, and
what it does at the end of the list. -/
def place (new : Held) (prev : Option Held) (valid : Bool) : List Held → Except Refusal Place
  | [] =>
    match prev with
    | some pr =>
      if pr.stop ≤ new.start then .ok ⟨[], [], valid && decide (pr.Abut new)⟩
      else .error .assertion
    | none => .ok ⟨[], [], valid⟩
  | q :: rest =>
    if new.start < q.start then
      match prev with
      | some pr =>
        if new.start < pr.stop ∨ new.stop > q.start then .error .dropped
        else .ok ⟨[], q :: rest, valid && decide (pr.Abut new)⟩
      | none =>
        if new.stop > q.start then .error .dropped
        else .ok ⟨[], q :: rest, valid⟩
    else if new.start = q.start then .error .dropped
    else if new.start < q.stop then .error .dropped
    else
      let valid := match prev with
        | some pr => valid && decide (pr.Abut q)
        | none => valid
      (place new (some q) valid rest).map fun r => { r with before := q :: r.before }

/-- The second loop: no hole after the new fragment. -/
def noHoles (prev : Held) : List Held → Bool
  | [] => true
  | q :: rest => decide (prev.Abut q) && noHoles q rest

/-- `ip_reass_chain_frag_into_datagram_and_validate`: the fragments with the new one, and
whether they are all there.  The sanity check at the end compares the first fragment with
the one the loop ended at. -/
def chainFrag {K H : Type} (ipr : Reassdata K H) (f : Frag K H) (isLast : Bool) :
    Except Refusal (List Held × Bool) :=
  if f.stop16 < f.offset then .error .dropped
  else
    let new : Held := ⟨f.offset, f.data, f.clen⟩
    match place new none true ipr.p with
    | .error e => .error e
    | .ok r =>
      let p := r.before ++ new :: r.after
      if isLast || ipr.last then
        if r.valid && p.head?.any (fun first => first.start = 0) && noHoles new r.after then
          if r.before = [] ∧ r.after = [] then .error .assertion else .ok (p, true)
        else .ok (p, false)
      else .ok (p, false)

/-- The buffers of an entry. -/
def pbufs {K H : Type} (ipr : Reassdata K H) : Nat := (ipr.p.map Piece.tag).sum

/-- `ip_reass_free_complete_datagram`, apart from the unlinking: the counter, the message
to the sender if the first fragment is there, and how many buffers were freed.  `none` is a
failed assertion, or an entry without a fragment. -/
def freeCompleteDatagram {K H : Type} (count : Nat) (ipr : Reassdata K H) :
    Option (Nat × List (Event K H) × Nat) :=
  match ipr.p with
  | [] => none
  | first :: _ =>
    if pbufs ipr > 0xffff ∨ count < pbufs ipr then none
    else
      some (count - pbufs ipr,
        if first.start = 0 then [.timeExceeded ipr.key ipr.rest first.data] else [], pbufs ipr)

/-- A list opened at one of its members. -/
structure Opened (α : Type) where
  before : List α
  here : α
  after : List α

/-- Of two entries, the one that has waited longer, and the later one of equals. -/
def older {K H : Type} (oldest : Option (Opened (Reassdata K H))) (r : Opened (Reassdata K H)) :
    Opened (Reassdata K H) :=
  match oldest with
  | none => r
  | some o => if r.here.timer ≤ o.here.timer then r else o

section

variable {K H : Type} [DecidableEq K]

/-- The search of `ip_reass_remove_oldest_datagram`: the last of the longest waiting
entries for other datagrams, and how many of those there are. -/
def findOldest (key : K) (prev : List (Reassdata K H)) (oldest : Option (Opened (Reassdata K H)))
    (others : Nat) : List (Reassdata K H) → Option (Opened (Reassdata K H)) × Nat
  | [] => (oldest, others)
  | r :: rest =>
    if r.key ≠ key then
      findOldest key (prev ++ [r]) (some (older oldest ⟨prev, r, rest⟩)) (others + 1) rest
    else findOldest key (prev ++ [r]) oldest others rest

/-- `ip_reass_remove_oldest_datagram`.  Every round but the last frees an entry, so there
are not more rounds than entries, and one. -/
def removeOldest (key : K) (needed : Nat) :
    Nat → State K H → Nat → Option (State K H × List (Event K H) × Nat)
  | 0, _, _ => none
  | fuel + 1, s, freed =>
    match findOldest key [] none 0 s.reassdatagrams with
    | (none, others) =>
      if freed < needed ∧ others > 1 then removeOldest key needed fuel s freed
      else some (s, [], freed)
    | (some o, others) =>
      match freeCompleteDatagram s.pbufcount o.here with
      | none => none
      | some (count, ev, now) =>
        let s' : State K H := ⟨o.before ++ o.after, count⟩
        if freed + now < needed ∧ others > 1 then
          (removeOldest key needed fuel s' (freed + now)).map fun (s'', ev', n) => (s'', ev ++ ev', n)
        else some (s', ev, freed + now)

/-- The limit on the buffers held: the state, and whether the fragment may go on. -/
def makeRoom (s : State K H) (f : Frag K H) : Option (State K H × List (Event K H) × Bool) :=
  if s.pbufcount + f.clen > ipReassMaxPbufs then
    (removeOldest f.key f.clen (s.reassdatagrams.length + 1) s 0).map fun (s', ev, freed) =>
      (s', ev, !(freed == 0 || s'.pbufcount + f.clen > ipReassMaxPbufs))
  else some (s, [], true)

/-- `ip_reass_enqueue_new_datagram`: the entry, unless the pool is empty.  It goes to the
front of the list. -/
def enqueueNewDatagram (s : State K H) (f : Frag K H) :
    Option (State K H × List (Event K H) × Option (Reassdata K H)) :=
  let ipr : Reassdata K H := ⟨f.key, f.rest, f.off, [], 0, false, ipReassMaxage⟩
  if s.reassdatagrams.length < mempNumReassdata then some (s, [], some ipr)
  else
    (removeOldest f.key f.clen (s.reassdatagrams.length + 1) s 0).map fun (s', ev, freed) =>
      (s', ev, if freed ≥ f.clen ∧ s'.reassdatagrams.length < mempNumReassdata then some ipr
        else none)

/-- The search of `ip4_reass`. -/
def lookFor (key : K) : List (Reassdata K H) → Option (Opened (Reassdata K H))
  | [] => none
  | ipr :: rest =>
    if ipr.key = key then some ⟨[], ipr, rest⟩
    else (lookFor key rest).map fun o => { o with before := ipr :: o.before }

/-- The header of the first fragment replaces that of another. -/
def takeHeader (ipr : Reassdata K H) (f : Frag K H) : Reassdata K H :=
  if f.off = 0 ∧ ipr.off ≠ 0 then { ipr with rest := f.rest, off := f.off } else ipr

/-- `nullreturn_ipr`: an entry made for nothing is removed, and it must be the first. -/
def refuse (count : Nat) (o : Opened (Reassdata K H)) : Option (State K H × List (Event K H)) :=
  if o.here.p = [] then
    if o.before = [] then some (⟨o.after, count⟩, []) else none
  else some (⟨o.before ++ o.here :: o.after, count⟩, [])

/-- An entry that has taken a fragment: the last one sets the length and the flag. -/
def taken {K H : Type} (ipr : Reassdata K H) (f : Frag K H) (p : List Held) : Reassdata K H :=
  { ipr with
    p := p
    datagramLen := if !f.mf then f.stop16 else ipr.datagramLen
    last := !f.mf || ipr.last }

/-- `ip4_reass` once the entry is found. -/
def store (count : Nat) (o : Opened (Reassdata K H)) (f : Frag K H) :
    Option (State K H × List (Event K H)) :=
  if f.mf = false ∧ (f.stop16 < f.offset ∨ f.stop16 > 0xffff - ipHlen) then refuse count o
  else
    match chainFrag o.here f (!f.mf) with
    | .error .assertion => none
    | .error .dropped => refuse count o
    | .ok (p, finished) =>
      let count := (count + f.clen) % 2 ^ 16
      let ipr := taken o.here f p
      if finished then
        if count < pbufs ipr then none
        else
          some (⟨o.before ++ o.after, count - pbufs ipr⟩,
            [.delivered ⟨ipr.key, ipr.rest, (ipr.datagramLen + ipHlen) % 2 ^ 16,
              p.flatMap Piece.data⟩])
      else some (⟨o.before ++ ipr :: o.after, count⟩, [])

/-- `ip4_reass`.  `none` is a failed assertion. -/
def ip4Reass (s : State K H) (f : Frag K H) : Option (State K H × List (Event K H)) :=
  if f.hl ≠ ipHlen then some (s, [])
  else
    match makeRoom s f with
    | none => none
    | some (s, ev, false) => some (s, ev)
    | some (s, ev, true) =>
      match lookFor f.key s.reassdatagrams with
      | some o =>
        (store s.pbufcount { o with here := takeHeader o.here f } f).map fun (s', ev') =>
          (s', ev ++ ev')
      | none =>
        match enqueueNewDatagram s f with
        | none => none
        | some (s, ev', none) => some (s, ev ++ ev')
        | some (s, ev', some ipr) =>
          (store s.pbufcount ⟨[], ipr, s.reassdatagrams⟩ f).map fun (s', ev'') =>
            (s', ev ++ ev' ++ ev'')

end

/-- The loop of `ip_reass_tmr`: the entries that stay, the counter and the messages. -/
def age {K H : Type} (count : Nat) :
    List (Reassdata K H) → Option (List (Reassdata K H) × Nat × List (Event K H))
  | [] => some ([], count, [])
  | r :: rest =>
    if r.timer > 0 then
      (age count rest).map fun (l, count, ev) => ({ r with timer := r.timer - 1 } :: l, count, ev)
    else
      match freeCompleteDatagram count r with
      | none => none
      | some (count, ev, _) => (age count rest).map fun (l, count, ev') => (l, count, ev ++ ev')

/-- `ip_reass_tmr`. -/
def ipReassTmr {K H : Type} (s : State K H) : Option (State K H × List (Event K H)) :=
  (age s.pbufcount s.reassdatagrams).map fun (l, count, ev) => (⟨l, count⟩, ev)

/-- The two entry points. -/
inductive Op (K H : Type)
  | input (f : Frag K H)
  | tmr

/-- The call that `ip4_input` makes for a packet with these fields, if it makes one. -/
def Op.ofPacket {K H : Type} (key : K) (rest : H) (hl off : Nat) (mf : Bool) (data : List UInt8)
    (clen : Nat) : Option (Op K H) :=
  if h : off < 2 ^ 13 ∧ (off ≠ 0 ∨ mf = true) ∧ ipHlen ≤ hl ∧ hl + data.length < 2 ^ 16 ∧ 0 < clen then
    some (.input ⟨key, rest, hl, off, mf, data, clen, h.1, h.2.1, h.2.2.1, h.2.2.2.1, h.2.2.2.2⟩)
  else none

/-- The module. -/
def machine (K H : Type) [DecidableEq K] : Machine (State K H) (Op K H) (List (Event K H)) where
  init := ⟨[], 0⟩
  step s
    | .input f => ip4Reass s f
    | .tmr => ipReassTmr s

/-! ## Finding the place of a fragment -/

open Piece (Abut Apart Spread Tiling)

theorem map_eq_ok {ε α β : Type} {f : α → β} {x : Except ε α} {b : β} (h : x.map f = .ok b) :
    ∃ a, x = .ok a ∧ f a = b := by
  cases x with
  | error e => cases h
  | ok a => exact ⟨a, rfl, Except.ok.inj h⟩

theorem map_eq_error {ε α β : Type} {f : α → β} {x : Except ε α} {e : ε} (h : x.map f = .error e) :
    x = .error e := by
  cases x with
  | error e' => rw [Except.error.inj h]
  | ok a => cases h

section

variable {new : Held} {l : List Held} {r : Place}

/-- What the loop has found out when it puts the fragment in: those before it lie before it,
and the next one after it. -/
theorem place_ok {prev : Option Held} {valid : Bool} (hprev : ∀ pr ∈ prev, Apart pr new)
    (h : place new prev valid l = .ok r) :
    l = r.before ++ r.after ∧ (∀ q ∈ r.before, Apart q new) ∧ (∀ q ∈ r.after.head?, Apart new q) ∧
      (r.valid = true ↔ valid = true ∧ (prev.toList ++ (r.before ++ [new])).IsChain Abut) := by
  induction l generalizing prev valid r with
  | nil =>
    cases prev with
    | none =>
      cases h
      simp
    | some pr =>
      simp only [place] at h
      split at h
      case isTrue =>
        cases h
        simp
      case isFalse => cases h
  | cons q rest ih =>
    simp only [place] at h
    split at h
    case isTrue hlt =>
      cases prev with
      | none =>
        dsimp only at h
        split at h
        case isTrue => cases h
        case isFalse hstop =>
          cases h
          exact ⟨rfl, by simp, by simpa using ⟨hlt, Nat.le_of_not_lt hstop⟩, by simp⟩
      | some pr =>
        dsimp only at h
        split at h
        case isTrue => cases h
        case isFalse hstop =>
          cases h
          rw [not_or, Nat.not_lt, Nat.not_lt] at hstop
          exact ⟨rfl, by simp, by simpa using ⟨hlt, hstop.2⟩, by simp⟩
    case isFalse hlt =>
      split at h
      case isTrue => cases h
      case isFalse hne =>
        split at h
        case isTrue => cases h
        case isFalse hstop =>
          have hq : Apart q new := ⟨by omega, Nat.le_of_not_lt hstop⟩
          obtain ⟨r', hr', rfl⟩ := map_eq_ok h
          obtain ⟨hsplit, hbefore, hafter, hvalid⟩ := ih (by simpa using hq) hr'
          refine ⟨by rw [hsplit]; rfl, ?_, hafter, ?_⟩
          · rintro x (_ | ⟨_, hx⟩)
            · exact hq
            · exact hbefore x hx
          · rw [hvalid]
            cases prev with
            | none => simp
            | some pr => simp [and_assoc]

/-- A fragment is turned away only if it overlaps one that is there. -/
theorem place_error {prev : Option Held} {valid : Bool} {e : Refusal}
    (hprev : ∀ pr ∈ prev, Apart pr new) (h : place new prev valid l = .error e) :
    e = .dropped ∧ ∃ q ∈ l, ¬Apart q new ∧ ¬Apart new q := by
  induction l generalizing prev valid with
  | nil =>
    cases prev with
    | none => cases h
    | some pr =>
      have hle : pr.stop ≤ new.start := (hprev pr rfl).2
      simp only [place, hle, if_true] at h
      cases h
  | cons q rest ih =>
    simp only [place] at h
    split at h
    case isTrue hlt =>
      -- only the end of the fragment can be in the way
      have hover : new.stop > q.start → ∃ x ∈ q :: rest, ¬Apart x new ∧ ¬Apart new x := fun hstop =>
        ⟨q, .head _, fun ha => Nat.lt_asymm hlt ha.1, fun ha => Nat.not_lt.mpr ha.2 hstop⟩
      cases prev with
      | none =>
        dsimp only at h
        split at h
        case isTrue hstop =>
          cases h
          exact ⟨rfl, hover hstop⟩
        case isFalse => cases h
      | some pr =>
        have hle : pr.stop ≤ new.start := (hprev pr rfl).2
        dsimp only at h
        split at h
        case isTrue hstop =>
          cases h
          exact ⟨rfl, hover (hstop.resolve_left (Nat.not_lt.mpr hle))⟩
        case isFalse => cases h
    case isFalse hlt =>
      split at h
      case isTrue heq =>
        cases h
        exact ⟨rfl, q, .head _, fun ha => by have := ha.1; omega, fun ha => hlt ha.1⟩
      case isFalse hne =>
        split at h
        case isTrue hstop =>
          cases h
          exact ⟨rfl, q, .head _, fun ha => Nat.not_lt.mpr ha.2 hstop, fun ha => hlt ha.1⟩
        case isFalse hstop =>
          have hq : Apart q new := ⟨by omega, Nat.le_of_not_lt hstop⟩
          obtain ⟨rfl, x, hx, hover⟩ := ih (by simpa using hq) (map_eq_error h)
          exact ⟨rfl, x, .tail _ hx, hover⟩

theorem noHoles_iff (prev : Held) (l : List Held) :
    noHoles prev l = true ↔ (prev :: l).IsChain Abut := by
  induction l generalizing prev with
  | nil => simp [noHoles]
  | cons q rest ih => rw [noHoles, Bool.and_eq_true, decide_eq_true_iff, ih, List.isChain_cons_cons]

end

/-- A list of fragments that holds a datagram from its first byte on. -/
def Complete (p : List Held) : Prop := p.IsChain Abut ∧ ∃ first ∈ p.head?, first.start = 0

theorem Complete.tiling {p : List Held} (h : Complete p) : ∃ b, Tiling p 0 b := by
  obtain ⟨hchain, first, hfirst, hzero⟩ := h
  cases p with
  | nil => cases hfirst
  | cons q rest =>
    obtain rfl : q = first := by simpa using hfirst
    rw [← hzero]
    exact Piece.exists_tiling_of_isChain hchain

section

variable {K H : Type} {ipr : Reassdata K H} {f : Frag K H} {isLast : Bool}

/-- The fragment as it is kept. -/
def Frag.held (f : Frag K H) : Held := ⟨f.offset, f.data, f.clen⟩

/-- The test for an overflow of the end. -/
theorem wraps_iff (f : Frag K H) :
    f.stop16 < f.offset ↔ 2 ^ 16 ≤ f.offset + f.data.length := by
  have hoff := f.off_lt
  have hlen := f.len_lt
  unfold Frag.stop16 Frag.offset at *
  omega

/-- The three tests of the source for a whole datagram. -/
theorem complete_iff (r : Place) (new : Held) (hvalid : r.valid = true ↔ (r.before ++ [new]).IsChain Abut) :
    (r.valid && (r.before ++ new :: r.after).head?.any (fun first => first.start = 0)
      && noHoles new r.after) = true ↔ Complete (r.before ++ new :: r.after) := by
  have hsplit : (r.before ++ new :: r.after).IsChain Abut ↔
      (r.before ++ [new]).IsChain Abut ∧ (new :: r.after).IsChain Abut := List.isChain_split
  rw [Bool.and_eq_true, Bool.and_eq_true, hvalid, noHoles_iff, Complete, hsplit, Option.any_eq_true]
  simp only [decide_eq_true_eq, Option.mem_def]
  tauto

/-- The function once the place is known. -/
theorem chainFrag_of_place (isLast : Bool) {r : Place} (hfits : f.offset + f.data.length < 2 ^ 16)
    (hr : place f.held none true ipr.p = .ok r) :
    ((isLast = true ∨ ipr.last = true) ∧ Complete (r.before ++ f.held :: r.after) ∧
        (if r.before = [] ∧ r.after = [] then chainFrag ipr f isLast = .error .assertion
          else chainFrag ipr f isLast = .ok (r.before ++ f.held :: r.after, true))) ∨
      (¬((isLast = true ∨ ipr.last = true) ∧ Complete (r.before ++ f.held :: r.after)) ∧
        chainFrag ipr f isLast = .ok (r.before ++ f.held :: r.after, false)) := by
  obtain ⟨-, -, -, hvalid⟩ := place_ok (by simp) hr
  have hcomplete := complete_iff r f.held (by simpa using hvalid)
  have hwrap : ¬f.stop16 < f.offset := by
    rw [wraps_iff]
    omega
  have hheld : (⟨f.offset, f.data, f.clen⟩ : Held) = f.held := rfl
  simp only [chainFrag, if_neg hwrap, hheld, hr, Bool.or_eq_true]
  by_cases hlast : isLast = true ∨ ipr.last = true
  · by_cases hall : Complete (r.before ++ f.held :: r.after)
    · left
      rw [if_pos hlast, if_pos (hcomplete.mpr hall)]
      refine ⟨hlast, hall, ?_⟩
      split <;> rfl
    · right
      rw [if_pos hlast, if_neg (mt hcomplete.mp hall)]
      exact ⟨fun h => hall h.2, rfl⟩
  · right
    rw [if_neg hlast]
    exact ⟨fun h => hlast h.1, rfl⟩

/-- What an entry is like after it has taken a fragment: the fragment is at its place, and
the datagram is finished if the last one has been seen and nothing is missing. -/
theorem chainFrag_ok {p : List Held} {finished : Bool} (hspread : Spread ipr.p)
    (h : chainFrag ipr f isLast = .ok (p, finished)) :
    f.offset + f.data.length < 2 ^ 16 ∧ Spread p ∧ (∀ x, x ∈ p ↔ x = f.held ∨ x ∈ ipr.p) ∧
      (p.map Piece.tag).sum = pbufs ipr + f.clen ∧
      (finished = true ↔ (isLast = true ∨ ipr.last = true) ∧ Complete p) := by
  have hfits : f.offset + f.data.length < 2 ^ 16 := by
    by_contra hge
    rw [chainFrag, if_pos ((wraps_iff f).mpr (Nat.le_of_not_lt hge))] at h
    cases h
  obtain ⟨r, hr⟩ : ∃ r, place f.held none true ipr.p = .ok r := by
    cases hr : place f.held none true ipr.p with
    | ok r => exact ⟨r, rfl⟩
    | error e =>
      have hwrap : ¬f.stop16 < f.offset := by
        rw [wraps_iff]
        omega
      rw [Frag.held] at hr
      simp only [chainFrag, if_neg hwrap, hr] at h
      cases h
  obtain ⟨hsplit, hbefore, hafter, -⟩ := place_ok (by simp) hr
  have hp : p = r.before ++ f.held :: r.after ∧
      (finished = true ↔ (isLast = true ∨ ipr.last = true) ∧
        Complete (r.before ++ f.held :: r.after)) := by
    rcases chainFrag_of_place isLast hfits hr with ⟨hlast, hall, hres⟩ | ⟨hnot, hres⟩
    · split at hres
      · rw [hres] at h
        cases h
      · rw [hres] at h
        cases h
        exact ⟨rfl, iff_of_true rfl ⟨hlast, hall⟩⟩
    · rw [hres] at h
      cases h
      exact ⟨rfl, iff_of_false Bool.false_ne_true hnot⟩
  obtain ⟨rfl, hfinished⟩ := hp
  rw [hsplit] at hspread
  refine ⟨hfits, Piece.spread_append_cons.mpr ⟨hspread, hbefore, ?_⟩, fun x => ?_, ?_, hfinished⟩
  · -- the first one after the place lies after the fragment, the others after that one
    intro q hq
    cases hrest : r.after with
    | nil =>
      rw [hrest] at hq
      cases hq
    | cons q' rest =>
      rw [hrest] at hq hafter hspread
      have hfirst : Apart f.held q' := hafter q' rfl
      rcases List.mem_cons.mp hq with rfl | hq
      · exact hfirst
      · have htail := (List.pairwise_append.mp hspread).2.1
        exact hfirst.trans ((List.pairwise_cons.mp htail).1 q hq)
  · rw [hsplit]
    simp only [List.mem_append, List.mem_cons]
    tauto
  · rw [pbufs, hsplit]
    simp [Frag.held]
    omega

/-- It is turned away if it overlaps one that is there, or if its end cannot be counted;
and the sanity check fails only for a datagram in one fragment. -/
theorem chainFrag_error {e : Refusal} (h : chainFrag ipr f isLast = .error e) :
    e = .dropped ∧ (2 ^ 16 ≤ f.offset + f.data.length ∨
        ∃ q ∈ ipr.p, ¬Apart q f.held ∧ ¬Apart f.held q) ∨
      e = .assertion ∧ ipr.p = [] ∧ (isLast = true ∨ ipr.last = true) ∧ f.offset = 0 := by
  by_cases hfits : f.offset + f.data.length < 2 ^ 16
  · cases hr : place f.held none true ipr.p with
    | error e' =>
      obtain ⟨rfl, hover⟩ := place_error (by simp) hr
      have hwrap : ¬f.stop16 < f.offset := by
        rw [wraps_iff]
        omega
      rw [Frag.held] at hr
      simp only [chainFrag, if_neg hwrap, hr] at h
      cases h
      exact .inl ⟨rfl, .inr hover⟩
    | ok r =>
      right
      obtain ⟨hsplit, -, -, -⟩ := place_ok (by simp) hr
      rcases chainFrag_of_place isLast hfits hr with ⟨hlast, hall, hres⟩ | ⟨-, hres⟩
      · split at hres
        case isTrue halone =>
          rw [hres] at h
          cases h
          rw [halone.1, halone.2] at hsplit hall
          obtain ⟨-, first, hfirst, hzero⟩ := hall
          obtain rfl : f.held = first := by simpa using hfirst
          exact ⟨rfl, hsplit, hlast, hzero⟩
        case isFalse =>
          rw [hres] at h
          cases h
      · rw [hres] at h
        cases h
  · rw [chainFrag, if_pos ((wraps_iff f).mpr (Nat.le_of_not_lt hfits))] at h
    cases h
    exact .inl ⟨rfl, .inl (Nat.le_of_not_lt hfits)⟩

end

end Reass
end Lwip
end LuatosPc
