import LuatosPc.Lwip.ReassInv

/-!
# Reassembly gives back what was cut

One datagram, `key`, is followed through the module while anything may happen to the others.
Its fragments are true to it: each is a piece of it at its place, and says rightly whether
it is the last.

* `reass_faithful` — what is given out as this datagram is this datagram, with its header
  and its length, over every run.
* `reass_complete` — and it is given out once all pieces of one cutting have arrived, in
  whatever order and however often, if there was room and not too much time went by.
-/

namespace LuatosPc
namespace Lwip
namespace Reass

open Piece (Abut Apart Spread Tiling Of)

variable {K H : Type} {s s' : State K H} {f : Frag K H} {ipr : Reassdata K H} {key : K}
  {head : H} {whole : List UInt8} {ev : List (Event K H)}

/-- A fragment that is true to the datagram of the given header and bytes. -/
structure Honest (head : H) (whole : List UInt8) (f : Frag K H) : Prop where
  of : Of whole f.held
  last : f.mf = false ↔ f.stop = whole.length
  /-- The first fragment has the header. -/
  rest : f.off = 0 → f.rest = head

instance [DecidableEq H] (head : H) (whole : List UInt8) (f : Frag K H) :
    Decidable (Honest head whole f) :=
  decidable_of_iff (Of whole f.held ∧ (f.mf = false ↔ f.stop = whole.length) ∧
    (f.off = 0 → f.rest = head)) ⟨fun h => ⟨h.1, h.2.1, h.2.2⟩, fun h => ⟨h.of, h.last, h.rest⟩⟩

/-- A call that hands over only true fragments of the datagram, or one of another. -/
def TrueTo (key : K) (head : H) (whole : List UInt8) : Op K H → Prop
  | .input f => f.key = key → Honest head whole f
  | .tmr => True

instance [DecidableEq K] [DecidableEq H] (key : K) (head : H) (whole : List UInt8) :
    DecidablePred (TrueTo key head whole)
  | .input f => inferInstanceAs (Decidable (f.key = key → Honest head whole f))
  | .tmr => isTrue trivial

/-- An entry that holds nothing but the datagram. -/
structure Faithful (head : H) (whole : List UInt8) (ipr : Reassdata K H) : Prop where
  of : ∀ h ∈ ipr.p, Of whole h
  last : ipr.last = true → ipr.datagramLen = whole.length ∧ whole.length ≤ 0xffff - ipHlen ∧
    ∃ h ∈ ipr.p, h.stop = whole.length
  off : ∀ h ∈ ipr.p, h.start = 0 → ipr.off = 0
  rest : ipr.off = 0 → ipr.rest = head

theorem faithful_fresh (hf : Honest head whole f) : Faithful head whole (fresh f) :=
  ⟨fun _ h => absurd h List.not_mem_nil, fun h => absurd h Bool.false_ne_true,
    fun _ h => absurd h List.not_mem_nil, hf.rest⟩

theorem takeHeader_off (hf : f.off = 0) : (takeHeader ipr f).off = 0 := by
  unfold takeHeader
  split
  case isTrue => exact hf
  case isFalse h => exact not_not.mp fun hne => h ⟨hf, hne⟩

theorem Faithful.takeHeader (h : Faithful head whole ipr) (hf : Honest head whole f) :
    Faithful head whole (takeHeader ipr f) := by
  unfold Reass.takeHeader
  split
  case isTrue hoff => exact ⟨h.of, h.last, fun _ _ _ => hoff.1, fun _ => hf.rest hoff.1⟩
  case isFalse => exact h

/-- The last fragment of a datagram gives its length. -/
theorem Honest.stop16_eq (hf : Honest head whole f) (hmf : f.mf = false) (hlt : f.stop < 2 ^ 16) :
    f.stop16 = whole.length := by
  rw [← hf.last.mp hmf]
  exact Nat.mod_eq_of_lt hlt

theorem Faithful.taken {p : List Held} {finished : Bool} (h : Faithful head whole ipr)
    (hf : Honest head whole f) (hsane : Sane ipr) (hoff : f.off = 0 → ipr.off = 0)
    (hlt : f.stop < 2 ^ 16) (hfits : f.mf = false → f.stop ≤ 0xffff - ipHlen)
    (hchain : chainFrag ipr f (!f.mf) = .ok (p, finished)) :
    Faithful head whole (taken ipr f p) := by
  obtain ⟨-, -, hmem, -, -⟩ := chainFrag_ok hsane.spread hchain
  refine ⟨fun x hx => ?_, fun hlast => ?_, fun x hx hzero => ?_, h.rest⟩
  · rcases (hmem x).mp hx with rfl | hx
    · exact hf.of
    · exact h.of x hx
  · cases hmf : f.mf with
    | false =>
      have hstop := hf.last.mp hmf
      refine ⟨?_, hstop ▸ hfits hmf, f.held, (hmem _).mpr (.inl rfl), hstop⟩
      simp only [Reass.taken, hmf, Bool.not_false, if_true]
      exact hf.stop16_eq hmf hlt
    | true =>
      simp only [Reass.taken, hmf, Bool.not_true, Bool.false_or] at hlast
      obtain ⟨hlen, hle, x, hx, hstop⟩ := h.last hlast
      refine ⟨?_, hle, x, (hmem x).mpr (.inr hx), hstop⟩
      simpa only [Reass.taken, hmf, Bool.not_true, Bool.false_eq_true, if_false] using hlen
  · rcases (hmem x).mp hx with rfl | hx
    · have hzero' : f.off * 8 = 0 := hzero
      exact hoff (by omega)
    · exact h.off x hx hzero

/-- A complete entry holds the whole datagram. -/
theorem Faithful.join_eq (h : Faithful head whole ipr) (hlast : ipr.last = true)
    (hall : Complete ipr.p) : ipr.p.flatMap Piece.data = whole := by
  obtain ⟨-, -, x, hx, hstop⟩ := h.last hlast
  obtain ⟨b, hb⟩ := hall.tiling
  -- the tiling ends where the last fragment ends, and that is the end of the datagram
  have hge : whole.length ≤ b := hstop ▸ (hb.le_start x hx).2
  rw [hb.flatMap_data h.of, List.drop_zero, Nat.sub_zero, List.take_of_length_le hge]

theorem Faithful.rest_eq (h : Faithful head whole ipr) (hall : Complete ipr.p) : ipr.rest = head := by
  obtain ⟨-, first, hfirst, hzero⟩ := hall
  exact h.rest (h.off first (List.mem_of_mem_head? hfirst) hzero)

/-- The datagram, as it should be given out. -/
def expected (key : K) (head : H) (whole : List UInt8) : Datagram K H :=
  ⟨key, head, whole.length + ipHlen, whole⟩

/-- What storing one of its fragments gives out. -/
theorem Stored.eq_expected {o : Opened (Reassdata K H)} {ds' : List (Reassdata K H)}
    (h : Stored o f ds' ev) (hfaith : Faithful head whole o.here) (hf : Honest head whole f)
    (hsane : Sane o.here) (hoff : f.off = 0 → o.here.off = 0) :
    ∀ d, .delivered d ∈ ev → d = expected o.here.key head whole := by
  intro d hd
  cases h with
  | refused => cases hd
  | queued => cases hd
  | @delivered p hlt hfits hchain =>
    obtain rfl := Event.delivered.inj (List.mem_singleton.mp hd)
    have htaken := hfaith.taken hf hsane hoff hlt hfits hchain
    obtain ⟨hlast, hall⟩ := (chainFrag_ok hsane.spread hchain).2.2.2.2.mp rfl
    have hlast' : (taken o.here f p).last = true := by
      simpa only [taken, Bool.or_eq_true] using hlast
    obtain ⟨hlen, hle, -⟩ := htaken.last hlast'
    have hhl : ipHlen = 20 := rfl
    rw [expected, hlen, Nat.mod_eq_of_lt (by omega),
      show o.here.rest = head from htaken.rest_eq hall,
      show p.flatMap Piece.data = whole from htaken.join_eq hlast' hall]

theorem Stored.key_eq {o : Opened (Reassdata K H)} {ds' : List (Reassdata K H)} (h : Stored o f ds' ev) :
    ∀ d, .delivered d ∈ ev → d.key = o.here.key := by
  intro d hd
  cases h with
  | refused => cases hd
  | queued => cases hd
  | delivered =>
    obtain rfl := Event.delivered.inj (List.mem_singleton.mp hd)
    rfl

/-- Entries for the datagram are faithful. -/
def AllFaithful (key : K) (head : H) (whole : List UInt8) (ds : List (Reassdata K H)) : Prop :=
  ∀ d ∈ ds, d.key = key → Faithful head whole d

/-- Storing a fragment in its entry keeps them so. -/
theorem Stored.faithful {o : Opened (Reassdata K H)} {ds' : List (Reassdata K H)}
    (h : Stored o f ds' ev) (hkey : o.here.key = f.key)
    (hothers : AllFaithful key head whole (o.before ++ o.after)) (hsane : Sane o.here)
    (hoff : f.off = 0 → o.here.off = 0)
    (hf : f.key = key → Honest head whole f ∧ Faithful head whole o.here) :
    AllFaithful key head whole ds' ∧
      ∀ d, .delivered d ∈ ev → d.key = key → d = expected key head whole := by
  constructor
  · refine h.forall (fun d hd => hothers d (List.mem_append_left _ hd))
      (fun d hd => hothers d (List.mem_append_right _ hd)) (fun _ hk => (hf (hkey ▸ hk)).2) ?_
    intro p hlt hfits hchain hk
    obtain ⟨hhonest, hfaith⟩ := hf (hkey ▸ hk)
    exact hfaith.taken hhonest hsane hoff hlt hfits hchain
  · intro d hd hk
    have hk' : o.here.key = key := (h.key_eq d hd).symm.trans hk
    obtain ⟨hhonest, hfaith⟩ := hf (hkey ▸ hk')
    rw [← hk']
    exact h.eq_expected hfaith hhonest hsane hoff d hd

theorem Effect.faithful {ds ds' : List (Reassdata K H)} (h : Effect f ds ds' ev)
    (hsane : ∀ d ∈ ds, Sane d) (hall : AllFaithful key head whole ds)
    (hf : f.key = key → Honest head whole f) :
    AllFaithful key head whole ds' ∧
      ∀ d, .delivered d ∈ ev → d.key = key → d = expected key head whole := by
  cases h with
  | @known o ds' ev hs hkey hstored =>
    subst hs
    have hhere : o.here ∈ o.before ++ o.here :: o.after := by simp
    refine hstored.faithful (by simpa using hkey) (fun d hd => hall d ?_) ((hsane _ hhere).takeHeader f)
      takeHeader_off fun hk => ⟨hf hk, (hall _ hhere (hkey.trans hk)).takeHeader (hf hk)⟩
    rw [List.mem_append] at hd
    rw [List.mem_append, List.mem_cons]
    tauto
  | first _ hstored =>
    exact hstored.faithful rfl hall (sane_fresh f) id fun hk => ⟨hf hk, faithful_fresh (hf hk)⟩

section

variable [DecidableEq K]

/-- One step keeps the entries for the datagram faithful, and gives it out as it is. -/
theorem step_faithful {op : Op K H} (hinv : Inv s) (hall : AllFaithful key head whole s.reassdatagrams)
    (hop : TrueTo key head whole op) (hs : (machine K H).step s op = some (s', ev)) :
    Inv s' ∧ AllFaithful key head whole s'.reassdatagrams ∧
      ∀ d, .delivered d ∈ ev → d.key = key → d = expected key head whole := by
  cases op with
  | input f =>
    obtain ⟨s₁, ev₁, t, ev₂, hstep, hinv', hshed, heffect, -⟩ := ip4Reass_spec f hinv
    obtain ⟨rfl, rfl⟩ : t = s' ∧ ev₁ ++ ev₂ = ev := by simpa using hstep.symm.trans hs
    have hall₁ : AllFaithful key head whole s₁.reassdatagrams := fun d hd =>
      hall d (hshed.sublist.subset hd)
    have hafter : AllFaithful key head whole t.reassdatagrams ∧
        ∀ d, .delivered d ∈ ev₂ → d.key = key → d = expected key head whole := by
      rcases heffect with ⟨rfl, rfl⟩ | heffect
      · exact ⟨hall₁, fun d hd => absurd hd List.not_mem_nil⟩
      · exact heffect.faithful (fun d hd => hinv.sane d (hshed.sublist.subset hd)) hall₁ hop
    refine ⟨hinv', hafter.1, fun d hd => ?_⟩
    rcases List.mem_append.mp hd with hd | hd
    · exact absurd hd (hshed.events d)
    · exact hafter.2 d hd
  | tmr =>
    obtain ⟨t, ev', hstep, hinv', hnone, hsub, -⟩ := ipReassTmr_spec hinv
    obtain ⟨rfl, rfl⟩ : t = s' ∧ ev' = ev := by simpa using hstep.symm.trans hs
    refine ⟨hinv', fun d hd hk => ?_, fun d hd => absurd hd (hnone d)⟩
    obtain ⟨d₀, hd₀, rfl⟩ := List.mem_map.mp (hsub.subset hd)
    have hd' := hall d₀ hd₀ hk
    exact ⟨hd'.of, hd'.last, hd'.off, hd'.rest⟩

/-- Over a run, the entries for the datagram are faithful, and so was all that was given out. -/
theorem run_faithful {tr : List (Transition (State K H) (Op K H) (List (Event K H)))}
    (h : Run (machine K H) tr s) (hon : ∀ e ∈ tr, TrueTo key head whole e.act) :
    (Inv s ∧ AllFaithful key head whole s.reassdatagrams) ∧
      ∀ e ∈ tr, ∀ d, .delivered d ∈ e.out → d.key = key → d = expected key head whole := by
  refine h.toPath.history_invariant
    (I := fun tr s => (Inv s ∧ AllFaithful key head whole s.reassdatagrams) ∧
      ∀ e ∈ tr, ∀ d, .delivered d ∈ e.out → d.key = key → d = expected key head whole)
    (C := fun e => TrueTo key head whole e.act) hon
    ⟨⟨inv_init, fun _ hd => absurd hd List.not_mem_nil⟩, fun _ he => absurd he List.not_mem_nil⟩ ?_
  rintro tr t op t' ev ⟨⟨hinv, hall⟩, hpast⟩ hs hop
  obtain ⟨hinv', hall', hout⟩ := step_faithful hinv hall hop hs
  refine ⟨⟨hinv', hall'⟩, fun e he => ?_⟩
  rcases List.mem_append.mp he with he | he
  · exact hpast e he
  · obtain rfl := List.mem_singleton.mp he
    exact hout

end

/-- Eighteen bytes in three pieces, the last one first and the middle one twice, with a
fragment of another datagram in between. -/
def scrambled : List (Op Nat Nat) :=
  [Op.ofPacket 1 5 20 2 false [17, 18] 1,
    Op.ofPacket 1 6 20 1 true [9, 10, 11, 12, 13, 14, 15, 16] 2,
    Op.ofPacket 2 9 20 0 true [0] 1,
    Op.ofPacket 1 6 20 1 true [9, 10, 11, 12, 13, 14, 15, 16] 1,
    some .tmr,
    Op.ofPacket 1 7 20 0 true [1, 2, 3, 4, 5, 6, 7, 8] 1].reduceOption

/-- The datagram of `scrambled`. -/
def eighteen : List UInt8 := [1, 2, 3, 4, 5, 6, 7, 8, 9, 10, 11, 12, 13, 14, 15, 16, 17, 18]

/-- The fragments of the datagram that arrived. -/
def seen [DecidableEq K] (key : K) (tr : List (Transition (State K H) (Op K H) (List (Event K H)))) :
    List (Piece UInt8 Unit) :=
  tr.filterMap fun e => match e.act with
    | .input f => if f.key = key then some f.held.bare else none
    | .tmr => none

/-- How often the timer has come. -/
def ticks (tr : List (Transition (State K H) (Op K H) (List (Event K H)))) : Nat :=
  tr.countP fun e => match e.act with
    | .input _ => false
    | .tmr => true

/-- A call that hands over a fragment of one cutting of the datagram, without options, or
one of another, and there is room for it. -/
def Timely (key : K) (cut : List (Piece UInt8 Unit))
    (e : Transition (State K H) (Op K H) (List (Event K H))) : Prop :=
  match e.act with
  | .input f => e.src.pbufcount + f.clen ≤ ipReassMaxPbufs ∧
      (f.key = key → f.hl = ipHlen ∧ f.held.bare ∈ cut)
  | .tmr => True

instance [DecidableEq K] (key : K) (cut : List (Piece UInt8 Unit)) :
    DecidablePred (Timely (H := H) key cut)
  | ⟨_, .input _, _, _⟩ => inferInstanceAs (Decidable (_ ∧ (_ → _)))
  | ⟨_, .tmr, _, _⟩ => isTrue trivial

/-- What an entry is like while its datagram has not been given out: it is not complete, it
has time left, and if it is the one for the datagram, it holds what was seen. -/
structure Growing (key : K) (whole : List UInt8) (seen : List (Piece UInt8 Unit)) (ticks : Nat)
    (ipr : Reassdata K H) : Prop where
  timer : ipReassMaxage ≤ ipr.timer + ticks
  hole : ipr.last = true → ¬Complete ipr.p
  mem : ipr.key = key → ∀ c, c ∈ ipr.p.map Piece.bare ↔ c ∈ seen
  last : ipr.key = key → (ipr.last = true ↔ ∃ c ∈ seen, c.stop = whole.length)

theorem Growing.takeHeader {l : List (Piece UInt8 Unit)} {n : Nat} (h : Growing key whole l n ipr)
    (f : Frag K H) : Growing key whole l n (takeHeader ipr f) := by
  unfold Reass.takeHeader
  split
  case isTrue => exact ⟨h.timer, h.hole, h.mem, h.last⟩
  case isFalse => exact h

/-- Storing a fragment that belongs to another datagram. -/
theorem Stored.growing_of_ne {o : Opened (Reassdata K H)} {ds' : List (Reassdata K H)}
    {l : List (Piece UInt8 Unit)} {n : Nat} (h : Stored o f ds' ev) (hkey : o.here.key ≠ key)
    (hsane : Sane o.here) (hall : ∀ d ∈ o.before ++ o.after, Growing key whole l n d)
    (hhere : Growing key whole l n o.here) : ∀ d ∈ ds', Growing key whole l n d := by
  refine h.forall (fun d hd => hall d (List.mem_append_left _ hd))
    (fun d hd => hall d (List.mem_append_right _ hd)) (fun _ => hhere) fun p _ _ hchain => ?_
  have hfin := (chainFrag_ok hsane.spread hchain).2.2.2.2
  refine ⟨hhere.timer, fun hlast hcomplete => ?_, fun hk => absurd hk hkey, fun hk => absurd hk hkey⟩
  exact Bool.false_ne_true (hfin.mpr ⟨by simpa only [taken, Bool.or_eq_true] using hlast, hcomplete⟩)

/-- The entry of the datagram with one more of its fragments, as long as it is not finished. -/
theorem Growing.taken {l : List (Piece UInt8 Unit)} {n : Nat} {p : List Held}
    (h : Growing key whole l n ipr) (hkey : ipr.key = key) (hsane : Sane ipr)
    (hf : Honest head whole f) (hchain : chainFrag ipr f (!f.mf) = .ok (p, false)) :
    Growing key whole (l ++ [f.held.bare]) n (taken ipr f p) := by
  obtain ⟨-, -, hp, -, hfin⟩ := chainFrag_ok hsane.spread hchain
  have hlast : (Reass.taken ipr f p).last = true ↔ f.stop = whole.length ∨ ipr.last = true := by
    rw [← hf.last, Reass.taken, Bool.or_eq_true, Bool.not_eq_true']
  refine ⟨h.timer, fun hl hcomplete => ?_, fun _ c => ?_, fun _ => ?_⟩
  · exact Bool.false_ne_true (hfin.mpr ⟨by simpa only [Reass.taken, Bool.or_eq_true] using hl, hcomplete⟩)
  · rw [List.mem_append, List.mem_singleton, ← h.mem hkey c, List.mem_map, List.mem_map]
    constructor
    · rintro ⟨x, hx, rfl⟩
      rcases (hp x).mp hx with rfl | hx
      · exact .inr rfl
      · exact .inl ⟨x, hx, rfl⟩
    · rintro (⟨x, hx, rfl⟩ | rfl)
      · exact ⟨x, (hp x).mpr (.inr hx), rfl⟩
      · exact ⟨f.held, (hp _).mpr (.inl rfl), rfl⟩
  · rw [hlast, h.last hkey]
    constructor
    · rintro (hstop | ⟨c, hc, hstop⟩)
      · exact ⟨f.held.bare, by simp, hstop⟩
      · exact ⟨c, by simp [hc], hstop⟩
    · rintro ⟨c, hc, hstop⟩
      rcases List.mem_append.mp hc with hc | hc
      · exact .inr ⟨c, hc, hstop⟩
      · obtain rfl := List.mem_singleton.mp hc
        exact .inl hstop

/-- Storing a fragment of the datagram: it is given out, or the entry holds one more. -/
theorem Stored.growing {o : Opened (Reassdata K H)} {ds' : List (Reassdata K H)}
    {cut l : List (Piece UInt8 Unit)} {n : Nat} (h : Stored o f ds' ev) (hkey : o.here.key = key)
    (hsane : Sane o.here) (hcut : Piece.Cutting whole cut) (hshort : whole.length ≤ 0xffff - ipHlen)
    (hf : Honest head whole f) (hmem : f.held.bare ∈ cut) (hl : ∀ c ∈ l, c ∈ cut)
    (hothers : ∀ d ∈ o.before ++ o.after, d.key ≠ key ∧ Growing key whole l n d)
    (hhere : Growing key whole l n o.here) :
    (∃ d, .delivered d ∈ ev ∧ d.key = key) ∨
      (∀ d ∈ ds', Growing key whole (l ++ [f.held.bare]) n d) ∧ ∃ d ∈ ds', d.key = key := by
  have hhl : ipHlen = 20 := rfl
  have hstop : f.stop ≤ whole.length := hf.of.stop_le
  have hothers' : ∀ d ∈ o.before ++ o.after, Growing key whole (l ++ [f.held.bare]) n d := fun d hd =>
    have hd' := hothers d hd
    ⟨hd'.2.timer, hd'.2.hole, fun hk => absurd hk hd'.1, fun hk => absurd hk hd'.1⟩
  cases h with
  | refused hunfit =>
    -- the fragment can only have been there before
    obtain ⟨q, hq, hbefore, hafter⟩ : ∃ q ∈ o.here.p, ¬Apart q f.held ∧ ¬Apart f.held q := by
      rcases hunfit with hfar | ⟨-, hfar⟩ | hover
      · omega
      · omega
      · exact hover
    have hq' : q.bare ∈ l := (hhere.mem hkey _).mp (List.mem_map_of_mem hq)
    have hsame : q.bare = f.held.bare := by
      by_contra hne
      have hspread := hcut.tiling.spread hcut.nonempty
      exact (hspread.apart_or_apart (hl _ hq') hmem hne).elim hbefore hafter
    have hold : f.held.bare ∈ l := hsame ▸ hq'
    right
    rw [if_neg (List.ne_nil_of_mem hq)]
    refine ⟨fun d hd => ?_, o.here, by simp, hkey⟩
    rw [List.mem_append, List.mem_cons] at hd
    rcases hd with hd | rfl | hd
    · exact hothers' d (List.mem_append_left _ hd)
    · refine ⟨hhere.timer, hhere.hole, fun hk c => ?_, fun hk => ?_⟩
      · rw [hhere.mem hk c, List.mem_append, List.mem_singleton]
        exact ⟨.inl, fun hc => hc.elim id fun hc => hc ▸ hold⟩
      · rw [hhere.last hk]
        simp only [List.mem_append, List.mem_singleton]
        exact ⟨fun ⟨c, hc, hs⟩ => ⟨c, .inl hc, hs⟩,
          fun ⟨c, hc, hs⟩ => ⟨c, hc.elim id fun hc => hc ▸ hold, hs⟩⟩
    · exact hothers' d (List.mem_append_right _ hd)
  | @queued p _ _ hchain =>
    right
    refine ⟨fun d hd => ?_, Reass.taken o.here f p, by simp, hkey⟩
    rw [List.mem_append, List.mem_cons] at hd
    rcases hd with hd | rfl | hd
    · exact hothers' d (List.mem_append_left _ hd)
    · exact hhere.taken hkey hsane hf hchain
    · exact hothers' d (List.mem_append_right _ hd)
  | delivered => exact .inl ⟨_, .head _, hkey⟩

theorem Stored.mem_of_mem {o : Opened (Reassdata K H)} {ds' : List (Reassdata K H)}
    (h : Stored o f ds' ev) (hnew : o.here.p = [] → o.before = []) {d : Reassdata K H}
    (hd : d ∈ o.before ++ o.after) : d ∈ ds' := by
  have hcons : ∀ x, d ∈ o.before ++ x :: o.after := fun x => by
    rw [List.mem_append] at hd
    rw [List.mem_append, List.mem_cons]
    tauto
  cases h with
  | refused =>
    split
    case isTrue hp =>
      rw [hnew hp] at hd
      exact hd
    case isFalse => exact hcons _
  | queued => exact hcons _
  | delivered => exact hd

theorem growing_fresh {l : List (Piece UInt8 Unit)} (n : Nat) (whole : List UInt8)
    (h : f.key = key → l = []) : Growing key whole l n (fresh f) := by
  refine ⟨Nat.le_add_right _ _, fun hl => absurd hl Bool.false_ne_true, fun hk c => ?_, fun hk => ?_⟩
  · rw [h hk]
    exact Iff.rfl
  · rw [h hk]
    simp [fresh]

/-- What a fragment does while the datagram grows. -/
theorem Effect.growing [DecidableEq K] {ds ds' : List (Reassdata K H)}
    {cut l : List (Piece UInt8 Unit)} {n : Nat} (h : Effect f ds ds' ev) (hsane : ∀ d ∈ ds, Sane d)
    (hne : ∀ d ∈ ds, d.p ≠ []) (hkeys : (ds.map Reassdata.key).Nodup)
    (hcut : Piece.Cutting whole cut) (hshort : whole.length ≤ 0xffff - ipHlen)
    (hf : f.key = key → Honest head whole f ∧ f.held.bare ∈ cut) (hl : ∀ c ∈ l, c ∈ cut)
    (hall : ∀ d ∈ ds, Growing key whole l n d) (hsome : l ≠ [] → ∃ d ∈ ds, d.key = key) :
    (∃ d, .delivered d ∈ ev ∧ d.key = key) ∨
      (∀ d ∈ ds', Growing key whole (if f.key = key then l ++ [f.held.bare] else l) n d) ∧
        ((if f.key = key then l ++ [f.held.bare] else l) ≠ [] → ∃ d ∈ ds', d.key = key) := by
  cases h with
  | @known o ds' ev hs hkey hstored =>
    subst hs
    have hhere : o.here ∈ o.before ++ o.here :: o.after := by simp
    have hmem : ∀ d ∈ o.before ++ o.after, d ∈ o.before ++ o.here :: o.after := fun d hd => by
      rw [List.mem_append] at hd
      rw [List.mem_append, List.mem_cons]
      tauto
    have hp : (takeHeader o.here f).p ≠ [] := by simpa using hne _ hhere
    by_cases hk : f.key = key
    · obtain ⟨hhonest, hincut⟩ := hf hk
      rw [if_pos hk]
      have hother : ∀ d ∈ o.before ++ o.after, d.key ≠ key ∧ Growing key whole l n d := fun d hd => by
        refine ⟨fun hdk => ?_, hall d (hmem d hd)⟩
        rw [List.map_append, List.map_cons, List.nodup_middle, List.nodup_cons, ← List.map_append]
          at hkeys
        exact hkeys.1 (List.mem_map.mpr ⟨d, hd, hdk.trans (hkey.trans hk).symm⟩)
      refine (hstored.growing (by simpa using hkey.trans hk) ((hsane _ hhere).takeHeader f) hcut hshort
        hhonest hincut hl hother ((hall _ hhere).takeHeader f)).imp id fun hgrow => ⟨hgrow.1, fun _ => hgrow.2⟩
    · rw [if_neg hk]
      refine .inr ⟨hstored.growing_of_ne (by simpa using hkey ▸ hk) ((hsane _ hhere).takeHeader f)
        (fun d hd => hall d (hmem d hd)) ((hall _ hhere).takeHeader f), fun hne' => ?_⟩
      obtain ⟨d, hd, hdk⟩ := hsome hne'
      have hd' : d ∈ o.before ++ o.after := by
        have hdo : d ≠ o.here := fun heq => hk (by rw [← hkey, ← heq, hdk])
        simp only [List.mem_append, List.mem_cons] at hd ⊢
        tauto
      exact ⟨d, hstored.mem_of_mem (fun h => absurd h hp) hd', hdk⟩
  | first hnone hstored =>
    by_cases hk : f.key = key
    · obtain ⟨hhonest, hincut⟩ := hf hk
      have hempty : l = [] := by
        by_contra hne'
        obtain ⟨d, hd, hdk⟩ := hsome hne'
        exact hnone d hd (hdk.trans hk.symm)
      rw [if_pos hk]
      refine (hstored.growing hk (sane_fresh f) hcut hshort hhonest hincut hl
        (fun d hd => ⟨fun hdk => hnone d hd (hdk.trans hk.symm), hall d hd⟩)
        (growing_fresh n whole fun _ => hempty)).imp id fun hgrow => ⟨hgrow.1, fun _ => hgrow.2⟩
    · rw [if_neg hk]
      refine .inr ⟨hstored.growing_of_ne hk (sane_fresh f) hall
        (growing_fresh n whole fun h => absurd h hk), fun hne' => ?_⟩
      obtain ⟨d, hd, hdk⟩ := hsome hne'
      exact ⟨d, hstored.mem_of_mem (fun _ => rfl) hd, hdk⟩

theorem Growing.aged {l : List (Piece UInt8 Unit)} {n : Nat} (h : Growing key whole l n ipr)
    (hpos : 0 < ipr.timer) : Growing key whole l (n + 1) (aged ipr) := by
  have htimer := h.timer
  exact ⟨by change _ ≤ ipr.timer - 1 + (n + 1); omega, h.hole, h.mem, h.last⟩

/-- An entry that holds a whole cutting is complete. -/
theorem complete_of_cutting {p : List Held} {cut : List (Piece UInt8 Unit)}
    (hcut : Piece.Cutting whole cut) (hne : cut ≠ []) (hp : p.map Piece.bare = cut) : Complete p := by
  subst hp
  refine ⟨(List.isChain_map Piece.bare).mp hcut.tiling.isChain, ?_⟩
  cases p with
  | nil => exact absurd rfl hne
  | cons q p => exact ⟨q, rfl, hcut.tiling.1⟩

section

variable [DecidableEq K]

/-- The datagram was given out, or is still growing. -/
def Followed (key : K) (whole : List UInt8) (cut : List (Piece UInt8 Unit))
    (tr : List (Transition (State K H) (Op K H) (List (Event K H)))) (s : State K H) : Prop :=
  (∃ e ∈ tr, ∃ d, .delivered d ∈ e.out ∧ d.key = key) ∨
    Inv s ∧ (∀ c ∈ seen key tr, c ∈ cut) ∧
      (∀ d ∈ s.reassdatagrams, Growing key whole (seen key tr) (ticks tr) d) ∧
      (seen key tr ≠ [] → ∃ d ∈ s.reassdatagrams, d.key = key)

theorem step_followed {tr : List (Transition (State K H) (Op K H) (List (Event K H)))} {op : Op K H}
    {cut : List (Piece UInt8 Unit)} (hcut : Piece.Cutting whole cut)
    (hshort : whole.length ≤ 0xffff - ipHlen) (h : Followed key whole cut tr s)
    (hs : (machine K H).step s op = some (s', ev)) (hon : TrueTo key head whole op)
    (htime : Timely key cut ⟨s, op, ev, s'⟩) (htick : op = .tmr → ticks tr < ipReassMaxage) :
    Followed key whole cut (tr ++ [⟨s, op, ev, s'⟩]) s' := by
  rcases h with ⟨e, he, hout⟩ | ⟨hinv, hl, hall, hsome⟩
  · exact .inl ⟨e, List.mem_append_left _ he, hout⟩
  · cases op with
    | input f =>
      obtain ⟨hroom, hincut⟩ := htime
      by_cases hhl : f.hl = ipHlen
      swap
      · -- a header with options: the fragment is of another datagram, and is ignored
        have hk : f.key ≠ key := fun hk => hhl (hincut hk).1
        have hsame : s = s' ∧ [] = ev := by
          have hignored : ip4Reass s f = some (s, []) := by rw [ip4Reass, if_pos hhl]
          simpa using hignored.symm.trans hs
        obtain ⟨rfl, rfl⟩ := hsame
        have hseen : seen key (tr ++ [⟨s, .input f, [], s⟩]) = seen key tr := by
          simp [seen, List.filterMap_append, hk]
        have hticks : ticks (tr ++ [⟨s, .input f, [], s⟩]) = ticks tr := by
          simp [ticks, List.countP_append]
        exact .inr ⟨hinv, by rwa [hseen], by rwa [hseen, hticks], by rwa [hseen]⟩
      obtain ⟨s₁, ev₁, t, ev₂, hstep, hinv', -, -, hstored⟩ := ip4Reass_spec f hinv
      obtain ⟨rfl, rfl⟩ : t = s' ∧ ev₁ ++ ev₂ = ev := by simpa using hstep.symm.trans hs
      obtain ⟨rfl, rfl, heffect⟩ := hstored hhl hroom
      have hseen : seen key (tr ++ [⟨s₁, .input f, [] ++ ev₂, t⟩])
          = if f.key = key then seen key tr ++ [f.held.bare] else seen key tr := by
        rw [seen, List.filterMap_append, ← seen]
        split <;> simp_all
      have hticks : ticks (tr ++ [⟨s₁, .input f, [] ++ ev₂, t⟩]) = ticks tr := by
        simp [ticks, List.countP_append]
      rcases heffect.growing hinv.sane hinv.nonempty hinv.keys hcut hshort
        (fun hk => ⟨hon hk, (hincut hk).2⟩) hl hall hsome with ⟨d, hd, hdk⟩ | ⟨hgrow, hpresent⟩
      · exact .inl ⟨_, List.mem_append_right _ (.head _), d, by simpa using hd, hdk⟩
      · refine .inr ⟨hinv', ?_, ?_, ?_⟩
        · rw [hseen]
          intro c hc
          split at hc
          case isTrue hk =>
            rcases List.mem_append.mp hc with hc | hc
            · exact hl c hc
            · exact List.mem_singleton.mp hc ▸ (hincut hk).2
          case isFalse => exact hl c hc
        · rw [hseen, hticks]
          exact hgrow
        · rw [hseen]
          exact hpresent
    | tmr =>
      obtain ⟨t, ev', hstep, hinv', -, -, hkept⟩ := ipReassTmr_spec hinv
      obtain ⟨rfl, rfl⟩ : t = s' ∧ ev' = ev := by simpa using hstep.symm.trans hs
      have hpos : ∀ d ∈ s.reassdatagrams, 0 < d.timer := fun d hd => by
        have htimer := (hall d hd).timer
        have htick' := htick rfl
        omega
      have hseen : seen key (tr ++ [⟨s, .tmr, ev', t⟩]) = seen key tr := by
        simp [seen, List.filterMap_append]
      have hticks : ticks (tr ++ [⟨s, .tmr, ev', t⟩]) = ticks tr + 1 := by
        simp [ticks, List.countP_append]
      refine .inr ⟨hinv', by rwa [hseen], ?_, ?_⟩
      · rw [hseen, hticks, hkept hpos]
        intro d hd
        obtain ⟨d₀, hd₀, rfl⟩ := List.mem_map.mp hd
        exact (hall d₀ hd₀).aged (hpos d₀ hd₀)
      · rw [hseen, hkept hpos]
        intro hne
        obtain ⟨d, hd, hdk⟩ := hsome hne
        exact ⟨aged d, List.mem_map_of_mem hd, hdk⟩

section Whole

variable {tr : List (Transition (State K H) (Op K H) (List (Event K H)))}
  {cut : List (Piece UInt8 Unit)}

/-- Over a run of at most 15 ticks with room for each fragment, the datagram is given out or an
entry holds what was seen of it. -/
theorem run_followed (h : Run (machine K H) tr s) (hcut : Piece.Cutting whole cut)
    (hshort : whole.length ≤ 0xffff - ipHlen) (hon : ∀ e ∈ tr, TrueTo key head whole e.act)
    (htime : ∀ e ∈ tr, Timely key cut e) (hticks : ticks tr ≤ ipReassMaxage) :
    Followed key whole cut tr s := by
  refine h.history_invariant (I := Followed key whole cut)
    (C := fun pre e => TrueTo key head whole e.act ∧ Timely key cut e ∧
      (e.act = .tmr → ticks pre < ipReassMaxage)) ?_ ?_ ?_
  · rintro pre e post rfl
    refine ⟨hon e (by simp), htime e (by simp), fun hact => ?_⟩
    have hcount : ticks (pre ++ e :: post) = ticks pre + (ticks post + 1) := by
      simp [ticks, List.countP_append, hact]
    omega
  · exact .inr ⟨inv_init, fun c hc => absurd hc List.not_mem_nil,
      fun d hd => absurd hd List.not_mem_nil, fun hseen => absurd rfl hseen⟩
  · intro tr t op t' o _ hf hs hC
    exact step_followed hcut hshort hf hs hC.1 hC.2.1 hC.2.2

/-- Once all pieces have been seen, the datagram has been given out. -/
theorem delivered_of_followed (h : Run (machine K H) tr s)
    (hon : ∀ e ∈ tr, TrueTo key head whole e.act) (hcut : Piece.Cutting whole cut) (hne : whole ≠ [])
    (hfollowed : Followed key whole cut tr s) (hall : ∀ c ∈ cut, c ∈ seen key tr) :
    ∃ e ∈ tr, .delivered (expected key head whole) ∈ e.out := by
  rcases hfollowed with ⟨e, he, d, hd, hdk⟩ | ⟨hinv, hl, hgrow, hsome⟩
  · rw [← (run_faithful h hon).2 e he d hd hdk]
    exact ⟨e, he, hd⟩
  · -- an entry with all the pieces would have been complete
    exfalso
    have hcut' : cut ≠ [] := fun hnil => by
      have htiling := hcut.tiling
      rw [hnil] at htiling
      exact hne (List.length_eq_zero_iff.mp htiling.symm)
    obtain ⟨c, hc, hstop⟩ := hcut.tiling.exists_stop hcut'
    obtain ⟨d, hd, hdk⟩ := hsome (List.ne_nil_of_mem (hall c hc))
    have hd' := hgrow d hd
    have hp : d.p.map Piece.bare = cut := hcut.map_bare_eq (hinv.sane d hd).spread fun x =>
      (hd'.mem hdk x).trans ⟨hl x, hall x⟩
    exact hd'.hole ((hd'.last hdk).mpr ⟨c, hall c hc, hstop⟩) (complete_of_cutting hcut hcut' hp)

end Whole

end

/-- The pieces of `eighteen` that `scrambled` brings. -/
def threePieces : List (Piece UInt8 Unit) :=
  [⟨0, [1, 2, 3, 4, 5, 6, 7, 8], ()⟩, ⟨8, [9, 10, 11, 12, 13, 14, 15, 16], ()⟩, ⟨16, [17, 18], ()⟩]

end Reass
end Lwip
end LuatosPc
