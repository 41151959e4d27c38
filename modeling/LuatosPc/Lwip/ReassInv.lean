import LuatosPc.Lwip.Reass

/-!
# Reassembly under whatever arrives

Fragments come from anywhere, so what keeps the module sound cannot rest on them.  Here
nothing is assumed of them but what `ip4_input` has checked.

* `Inv` — between two calls the entries are for different datagrams, each with at least one
  fragment, in order and without overlap, and the counter counts the buffers held.
* `ip4Reass_spec`, `ipReassTmr_spec` — what the two entry points do from such a state: they
  never fail an assertion, keep `Inv`, and change the entries in one of few ways
  (`Shed`, `Effect`).
* `reass_accounts` — so in every run.
-/

namespace LuatosPc
namespace Lwip
namespace Reass

open Piece (Abut Apart Spread Tiling)

variable {K H : Type} {s s' : State K H} {f : Frag K H} {ipr : Reassdata K H}
  {ds : List (Reassdata K H)} {ev : List (Event K H)}

/-- The buffers held for a list of entries. -/
def total (ds : List (Reassdata K H)) : Nat := (ds.map pbufs).sum

/-- What is true of an entry, also of one that has just been made. -/
structure Sane (ipr : Reassdata K H) : Prop where
  spread : Spread ipr.p
  tag_pos : ∀ h ∈ ipr.p, 0 < h.tag
  /-- The last fragment of a datagram is not its first. -/
  last : ipr.last = true → ∃ h ∈ ipr.p, 0 < h.start

/-- What is true between two calls. -/
structure Inv (s : State K H) : Prop where
  sane : ∀ ipr ∈ s.reassdatagrams, Sane ipr
  nonempty : ∀ ipr ∈ s.reassdatagrams, ipr.p ≠ []
  keys : (s.reassdatagrams.map Reassdata.key).Nodup
  count : s.pbufcount = total s.reassdatagrams
  bound : s.pbufcount ≤ ipReassMaxPbufs

@[simp] theorem total_nil : total ([] : List (Reassdata K H)) = 0 := rfl

@[simp] theorem total_cons (ipr : Reassdata K H) (ds : List (Reassdata K H)) :
    total (ipr :: ds) = pbufs ipr + total ds := by simp [total]

@[simp] theorem total_append (ds es : List (Reassdata K H)) :
    total (ds ++ es) = total ds + total es := by simp [total]

theorem Sane.pbufs_pos (h : Sane ipr) (hne : ipr.p ≠ []) : 0 < pbufs ipr := by
  obtain ⟨first, rest, hp⟩ := List.exists_cons_of_ne_nil hne
  have hfirst := h.tag_pos first (by rw [hp]; exact .head _)
  rw [pbufs, hp, List.map_cons, List.sum_cons]
  omega

theorem length_le_total (hsane : ∀ ipr ∈ ds, Sane ipr) (hne : ∀ ipr ∈ ds, ipr.p ≠ []) :
    ds.length ≤ total ds := by
  induction ds with
  | nil => exact Nat.zero_le _
  | cons ipr ds ih =>
    have hpos := (hsane ipr (.head _)).pbufs_pos (hne ipr (.head _))
    have hrest := ih (fun d hd => hsane d (.tail _ hd)) fun d hd => hne d (.tail _ hd)
    rw [List.length_cons, total_cons]
    omega

/-! ## Letting entries go -/

/-- Nothing is given out, only messages that time is exceeded. -/
def NoneDelivered (ev : List (Event K H)) : Prop := ∀ d, Event.delivered d ∉ ev

theorem noneDelivered_nil : NoneDelivered ([] : List (Event K H)) := fun _ => List.not_mem_nil

theorem NoneDelivered.append {ev' : List (Event K H)} (h : NoneDelivered ev) (h' : NoneDelivered ev') :
    NoneDelivered (ev ++ ev') := fun d hd => (List.mem_append.mp hd).elim (h d) (h' d)

theorem freeCompleteDatagram_spec {count : Nat} (hne : ipr.p ≠ []) (hle : pbufs ipr ≤ count)
    (hbound : count ≤ ipReassMaxPbufs) :
    ∃ ev, freeCompleteDatagram count ipr = some (count - pbufs ipr, ev, pbufs ipr) ∧
      NoneDelivered ev := by
  obtain ⟨first, rest, hp⟩ := List.exists_cons_of_ne_nil hne
  have hmax : ipReassMaxPbufs ≤ 0xffff := by decide
  have hok : ¬(pbufs ipr > 0xffff ∨ count < pbufs ipr) := by omega
  refine ⟨if first.start = 0 then [.timeExceeded ipr.key ipr.rest first.data] else [],
    by simp only [freeCompleteDatagram, hp, if_neg hok], fun d hd => ?_⟩
  split at hd <;> simp at hd

/-- Some entries go, the others stay as they are. -/
structure Shed (s s' : State K H) (ev : List (Event K H)) : Prop where
  sublist : s'.reassdatagrams.Sublist s.reassdatagrams
  events : NoneDelivered ev

theorem Shed.refl (s : State K H) : Shed s s [] := ⟨List.Sublist.refl _, noneDelivered_nil⟩

theorem Shed.trans {s'' : State K H} {ev' : List (Event K H)} (h : Shed s s' ev) (h' : Shed s' s'' ev') :
    Shed s s'' (ev ++ ev') := ⟨h'.sublist.trans h.sublist, h.events.append h'.events⟩

/-- Taking out an entry keeps the invariant. -/
theorem Inv.erase {before after : List (Reassdata K H)} (h : Inv s)
    (hs : s.reassdatagrams = before ++ ipr :: after) :
    Inv (⟨before ++ after, s.pbufcount - pbufs ipr⟩ : State K H) := by
  have hsub : (before ++ after).Sublist s.reassdatagrams := by
    rw [hs]
    exact (List.Sublist.refl _).append (List.sublist_cons_self _ _)
  have hcount := h.count
  have hbound := h.bound
  rw [hs, total_append, total_cons] at hcount
  exact {
    sane := fun d hd => h.sane d (hsub.subset hd)
    nonempty := fun d hd => h.nonempty d (hsub.subset hd)
    keys := h.keys.sublist (hsub.map _)
    count := by rw [total_append]; dsimp only; omega
    bound := (Nat.sub_le _ _).trans hbound }

section

variable [DecidableEq K]

/-- The search opens the list at an entry, if there is one to let go. -/
theorem findOldest_spec (key : K) (prev : List (Reassdata K H))
    (oldest : Option (Opened (Reassdata K H))) (others : Nat) (l : List (Reassdata K H))
    (hold : ∀ o ∈ oldest, prev ++ l = o.before ++ o.here :: o.after) :
    (∀ o ∈ (findOldest key prev oldest others l).1, prev ++ l = o.before ++ o.here :: o.after) ∧
      (oldest.isSome = true → (findOldest key prev oldest others l).1.isSome = true) ∧
      ((findOldest key prev oldest others l).1 = none →
        (findOldest key prev oldest others l).2 = others) := by
  induction l generalizing prev oldest others with
  | nil => exact ⟨hold, id, fun _ => rfl⟩
  | cons r rest ih =>
    have hassoc : prev ++ r :: rest = (prev ++ [r]) ++ rest := by simp
    by_cases hkey : r.key ≠ key
    · have hopen : prev ++ r :: rest = (older oldest ⟨prev, r, rest⟩).before
          ++ (older oldest ⟨prev, r, rest⟩).here :: (older oldest ⟨prev, r, rest⟩).after := by
        unfold older
        split
        case h_1 => rfl
        case h_2 o =>
          split
          · rfl
          · exact hold o rfl
      rw [hassoc] at hopen ⊢
      obtain ⟨hspec, hsome, -⟩ := ih (prev ++ [r]) (some (older oldest ⟨prev, r, rest⟩)) (others + 1)
        (by simpa using hopen)
      simp only [findOldest, if_pos hkey]
      refine ⟨hspec, fun _ => hsome rfl, fun hnone => ?_⟩
      rw [hnone] at hsome
      cases hsome rfl
    · rw [hassoc] at hold ⊢
      simp only [findOldest, if_neg hkey]
      exact ih (prev ++ [r]) oldest others hold

/-- Making room from a sound state works, and leaves a sound state with fewer entries. -/
theorem removeOldest_spec (key : K) (needed fuel freed : Nat) (hinv : Inv s)
    (hfuel : s.reassdatagrams.length < fuel) :
    ∃ s' ev n, removeOldest key needed fuel s freed = some (s', ev, n) ∧ Inv s' ∧ Shed s s' ev := by
  induction fuel generalizing s freed with
  | zero => exact absurd hfuel (Nat.not_lt_zero _)
  | succ fuel ih =>
    obtain ⟨hopen, -, hnone⟩ := findOldest_spec key [] none 0 s.reassdatagrams (by simp)
    cases hfind : findOldest key [] none 0 s.reassdatagrams with
    | mk oldest others =>
      rw [hfind] at hopen hnone
      cases oldest with
      | none =>
        have hothers : others = 0 := hnone rfl
        refine ⟨s, [], freed, ?_, hinv, Shed.refl s⟩
        simp only [removeOldest, hfind, hothers]
        rw [if_neg (by omega)]
      | some o =>
        have hs : s.reassdatagrams = o.before ++ o.here :: o.after := hopen o rfl
        have hmem : o.here ∈ s.reassdatagrams := by simp [hs]
        have hle : pbufs o.here ≤ s.pbufcount := by
          rw [hinv.count, hs, total_append, total_cons]
          omega
        obtain ⟨ev, hfree, hev⟩ := freeCompleteDatagram_spec (hinv.nonempty _ hmem) hle hinv.bound
        have hinv' := hinv.erase hs
        have hshed : Shed s ⟨o.before ++ o.after, s.pbufcount - pbufs o.here⟩ ev := by
          refine ⟨?_, hev⟩
          rw [hs]
          exact (List.Sublist.refl _).append (List.sublist_cons_self _ _)
        by_cases hmore : freed + pbufs o.here < needed ∧ others > 1
        · have hlen : (o.before ++ o.after).length < fuel := by
            rw [hs] at hfuel
            simp only [List.length_append, List.length_cons] at hfuel ⊢
            omega
          obtain ⟨s'', ev', n, hrest, hinv'', hshed'⟩ := ih (freed + pbufs o.here) hinv' hlen
          refine ⟨s'', ev ++ ev', n, ?_, hinv'', hshed.trans hshed'⟩
          simp only [removeOldest, hfind, hfree, if_pos hmore, hrest, Option.map_some]
        · refine ⟨_, ev, freed + pbufs o.here, ?_, hinv', hshed⟩
          simp only [removeOldest, hfind, hfree, if_neg hmore]

/-- After making room a fragment that may go on finds it. -/
theorem makeRoom_spec (f : Frag K H) (hinv : Inv s) :
    ∃ s' ev ok, makeRoom s f = some (s', ev, ok) ∧ Inv s' ∧ Shed s s' ev ∧
      (ok = true → s'.pbufcount + f.clen ≤ ipReassMaxPbufs) ∧
      (s.pbufcount + f.clen ≤ ipReassMaxPbufs → s' = s ∧ ev = [] ∧ ok = true) := by
  unfold makeRoom
  split
  case isTrue hfull =>
    obtain ⟨s', ev, n, hrm, hinv', hshed⟩ :=
      removeOldest_spec f.key f.clen (s.reassdatagrams.length + 1) 0 hinv (Nat.lt_succ_self _)
    refine ⟨s', ev, _, by rw [hrm]; rfl, hinv', hshed, fun hok => ?_, fun hroom => by omega⟩
    simp only [Bool.not_eq_true', Bool.or_eq_false_iff, decide_eq_false_iff_not] at hok
    omega
  case isFalse hroom =>
    exact ⟨s, [], true, rfl, hinv, Shed.refl s, fun _ => Nat.le_of_not_lt hroom,
      fun _ => ⟨rfl, rfl, rfl⟩⟩

/-- The pool of entries never runs out: every entry holds a buffer. -/
theorem enqueueNewDatagram_eq (f : Frag K H) (hinv : Inv s)
    (hroom : s.pbufcount + f.clen ≤ ipReassMaxPbufs) :
    enqueueNewDatagram s f
      = some (s, [], some ⟨f.key, f.rest, f.off, [], 0, false, ipReassMaxage⟩) := by
  have hlen := length_le_total hinv.sane hinv.nonempty
  have hcount := hinv.count
  have hpos := f.clen_pos
  have hpool : mempNumReassdata = ipReassMaxPbufs := rfl
  rw [enqueueNewDatagram, if_pos (by omega)]

/-- The search for the datagram of a fragment. -/
theorem lookFor_spec (key : K) (ds : List (Reassdata K H)) :
    match lookFor key ds with
    | none => ∀ d ∈ ds, d.key ≠ key
    | some o => ds = o.before ++ o.here :: o.after ∧ o.here.key = key := by
  induction ds with
  | nil => simp [lookFor]
  | cons d rest ih =>
    by_cases hkey : d.key = key
    · simp only [lookFor, if_pos hkey]
      exact ⟨rfl, hkey⟩
    · simp only [lookFor, if_neg hkey]
      cases hrest : lookFor key rest with
      | none =>
        rw [hrest] at ih
        simpa using ⟨hkey, ih⟩
      | some o =>
        rw [hrest] at ih
        exact ⟨by rw [ih.1]; rfl, ih.2⟩

end

/-! ## Taking a fragment in -/

/-- The end of a fragment. -/
def Frag.stop (f : Frag K H) : Nat := f.offset + f.data.length

/-- A fragment that no entry takes: its end is too far out, or it overlaps one that is
there. -/
def Unfit (ipr : Reassdata K H) (f : Frag K H) : Prop :=
  2 ^ 16 ≤ f.stop ∨ f.mf = false ∧ 0xffff - ipHlen < f.stop ∨
    ∃ q ∈ ipr.p, ¬Apart q f.held ∧ ¬Apart f.held q

/-- What becomes of the entries, opened at the one for the fragment, and what is given out. -/
inductive Stored (o : Opened (Reassdata K H)) (f : Frag K H) :
    List (Reassdata K H) → List (Event K H) → Prop
  | refused : Unfit o.here f →
      Stored o f (if o.here.p = [] then o.after else o.before ++ o.here :: o.after) []
  | queued {p : List Held} : f.stop < 2 ^ 16 → (f.mf = false → f.stop ≤ 0xffff - ipHlen) →
      chainFrag o.here f (!f.mf) = .ok (p, false) →
      Stored o f (o.before ++ taken o.here f p :: o.after) []
  | delivered {p : List Held} : f.stop < 2 ^ 16 → (f.mf = false → f.stop ≤ 0xffff - ipHlen) →
      chainFrag o.here f (!f.mf) = .ok (p, true) →
      Stored o f (o.before ++ o.after)
        [.delivered ⟨o.here.key, o.here.rest, ((taken o.here f p).datagramLen + ipHlen) % 2 ^ 16,
          p.flatMap Piece.data⟩]

theorem Sane.taken {p : List Held} {finished : Bool} (h : Sane ipr)
    (hchain : chainFrag ipr f (!f.mf) = .ok (p, finished)) :
    Sane (taken ipr f p) ∧ p ≠ [] := by
  obtain ⟨-, hspread, hmem, -, -⟩ := chainFrag_ok h.spread hchain
  have hf : f.held ∈ p := (hmem _).mpr (.inl rfl)
  refine ⟨⟨hspread, fun x hx => ?_, fun hlast => ?_⟩, List.ne_nil_of_mem hf⟩
  · rcases (hmem x).mp hx with rfl | hx
    · exact f.clen_pos
    · exact h.tag_pos x hx
  · simp only [Reass.taken, Bool.or_eq_true, Bool.not_eq_true'] at hlast
    rcases hlast with hmf | hlast
    · have hoff : f.off ≠ 0 := f.isFragment.resolve_right (by simp [hmf])
      exact ⟨f.held, hf, Nat.mul_pos (Nat.pos_of_ne_zero hoff) (by decide)⟩
    · obtain ⟨x, hx, hpos⟩ := h.last hlast
      exact ⟨x, (hmem x).mpr (.inr hx), hpos⟩

theorem pbufs_taken {p : List Held} {finished : Bool} (h : Sane ipr)
    (hchain : chainFrag ipr f (!f.mf) = .ok (p, finished)) :
    pbufs (taken ipr f p) = pbufs ipr + f.clen := (chainFrag_ok h.spread hchain).2.2.2.1

theorem refuse_spec {o : Opened (Reassdata K H)} {count : Nat} (hnew : o.here.p = [] → o.before = [])
    (hcount : count = total (o.before ++ o.here :: o.after)) :
    ∃ s', refuse count o = some (s', []) ∧
      s'.reassdatagrams = (if o.here.p = [] then o.after else o.before ++ o.here :: o.after) ∧
      s'.pbufcount = count ∧ s'.pbufcount = total s'.reassdatagrams := by
  unfold refuse
  by_cases hp : o.here.p = []
  · rw [if_pos hp, if_pos (hnew hp), if_pos hp]
    refine ⟨_, rfl, rfl, rfl, ?_⟩
    rw [hcount, hnew hp]
    simp [pbufs, hp]
  · rw [if_neg hp, if_neg hp]
    exact ⟨_, rfl, rfl, rfl, hcount⟩

/-- With room for the fragment, taking it in does not fail. -/
theorem store_spec {o : Opened (Reassdata K H)} {count : Nat} (hsane : Sane o.here)
    (hnew : o.here.p = [] → o.before = [] ∧ o.here.last = false)
    (hcount : count = total (o.before ++ o.here :: o.after))
    (hroom : count + f.clen ≤ ipReassMaxPbufs) :
    ∃ s' ev, store count o f = some (s', ev) ∧ Stored o f s'.reassdatagrams ev ∧
      s'.pbufcount = total s'.reassdatagrams ∧ s'.pbufcount ≤ ipReassMaxPbufs := by
  obtain ⟨sr, href, hds, hsame, htotal⟩ := refuse_spec (fun hp => (hnew hp).1) hcount
  have hmax : ipReassMaxPbufs < 2 ^ 16 := by decide
  have hwrap : f.stop16 < f.offset ↔ 2 ^ 16 ≤ f.stop := wraps_iff f
  have hmod : f.stop16 = f.stop % 2 ^ 16 := rfl
  have hrefused : Unfit o.here f → ∃ s' ev, refuse count o = some (s', ev) ∧
      Stored o f s'.reassdatagrams ev ∧ s'.pbufcount = total s'.reassdatagrams ∧
      s'.pbufcount ≤ ipReassMaxPbufs := fun hunfit =>
    ⟨sr, [], href, hds ▸ .refused hunfit, htotal, by omega⟩
  by_cases hfar : f.mf = false ∧ (f.stop16 < f.offset ∨ f.stop16 > 0xffff - ipHlen)
  · rw [store, if_pos hfar]
    refine hrefused ?_
    rcases Nat.lt_or_ge f.stop (2 ^ 16) with hlt | hge
    · exact .inr (.inl ⟨hfar.1, by omega⟩)
    · exact .inl hge
  · have hfits : f.stop < 2 ^ 16 → f.mf = false → f.stop ≤ 0xffff - ipHlen := by
      intro hlt hmf
      have hnot : ¬(f.stop16 < f.offset ∨ f.stop16 > 0xffff - ipHlen) := fun h => hfar ⟨hmf, h⟩
      omega
    simp only [store, if_neg hfar]
    cases hchain : chainFrag o.here f (!f.mf) with
    | error e =>
      rcases chainFrag_error hchain with ⟨rfl, hwhy⟩ | ⟨rfl, hp, hlast, hzero⟩
      · dsimp only
        exact hrefused (hwhy.imp id .inr)
      · -- a datagram in one fragment would not have come here
        exfalso
        rw [(hnew hp).2] at hlast
        have hmf : f.mf = false := by simpa using hlast
        have hne : f.off ≠ 0 := f.isFragment.resolve_right (by simp [hmf])
        unfold Frag.offset at hzero
        omega
    | ok res =>
      obtain ⟨p, finished⟩ := res
      have hlt : f.stop < 2 ^ 16 := (chainFrag_ok hsane.spread hchain).1
      have hpbufs := pbufs_taken hsane hchain
      rw [total_append, total_cons] at hcount
      dsimp only
      rw [Nat.mod_eq_of_lt (a := count + f.clen) (by omega)]
      cases finished with
      | true =>
        rw [if_pos rfl, if_neg (by omega)]
        refine ⟨_, _, rfl, .delivered hlt (hfits hlt) hchain, ?_, ?_⟩
        · rw [total_append]
          dsimp only
          omega
        · dsimp only
          omega
      | false =>
        rw [if_neg Bool.false_ne_true]
        refine ⟨_, _, rfl, .queued hlt (hfits hlt) hchain, ?_, hroom⟩
        rw [total_append, total_cons, hpbufs]
        dsimp only
        omega

/-! ## The two entry points -/

@[simp] theorem takeHeader_key (ipr : Reassdata K H) (f : Frag K H) :
    (takeHeader ipr f).key = ipr.key := by unfold takeHeader; split <;> rfl

@[simp] theorem takeHeader_p (ipr : Reassdata K H) (f : Frag K H) :
    (takeHeader ipr f).p = ipr.p := by unfold takeHeader; split <;> rfl

@[simp] theorem takeHeader_last (ipr : Reassdata K H) (f : Frag K H) :
    (takeHeader ipr f).last = ipr.last := by unfold takeHeader; split <;> rfl

/-- The entry a fragment finds, or the one made for it. -/
def fresh (f : Frag K H) : Reassdata K H := ⟨f.key, f.rest, f.off, [], 0, false, ipReassMaxage⟩

/-- What a fragment does to the entries: it is stored in its entry, which was there or is
new. -/
inductive Effect (f : Frag K H) (ds : List (Reassdata K H)) :
    List (Reassdata K H) → List (Event K H) → Prop
  | known {o : Opened (Reassdata K H)} {ds' : List (Reassdata K H)} {ev : List (Event K H)} :
      ds = o.before ++ o.here :: o.after → o.here.key = f.key →
      Stored { o with here := takeHeader o.here f } f ds' ev → Effect f ds ds' ev
  | first {ds' : List (Reassdata K H)} {ev : List (Event K H)} :
      (∀ d ∈ ds, d.key ≠ f.key) → Stored ⟨[], fresh f, ds⟩ f ds' ev →
      Effect f ds ds' ev

theorem sane_fresh (f : Frag K H) : Sane (fresh f) :=
  ⟨List.Pairwise.nil, fun _ h => absurd h List.not_mem_nil, fun h => absurd h Bool.false_ne_true⟩

theorem Sane.takeHeader (h : Sane ipr) (f : Frag K H) : Sane (takeHeader ipr f) :=
  ⟨by simpa using h.spread, by simpa using h.tag_pos, by simpa using h.last⟩

/-- Storing keeps what is true of the entries: `P` may also speak of keys and of having a
fragment. -/
theorem Stored.forall {o : Opened (Reassdata K H)} {ds' : List (Reassdata K H)}
    {P : Reassdata K H → Prop} (h : Stored o f ds' ev) (hbefore : ∀ d ∈ o.before, P d)
    (hafter : ∀ d ∈ o.after, P d) (hhere : o.here.p ≠ [] → P o.here)
    (htaken : ∀ p, f.stop < 2 ^ 16 → (f.mf = false → f.stop ≤ 0xffff - ipHlen) →
      chainFrag o.here f (!f.mf) = .ok (p, false) → P (taken o.here f p)) :
    ∀ d ∈ ds', P d := by
  cases h with
  | refused =>
    split
    case isTrue => exact hafter
    case isFalse hp =>
      intro d hd
      rcases List.mem_append.mp hd with hd | hd
      · exact hbefore d hd
      · rcases List.mem_cons.mp hd with rfl | hd
        · exact hhere hp
        · exact hafter d hd
  | @queued p hlt hfits hchain =>
    intro d hd
    rcases List.mem_append.mp hd with hd | hd
    · exact hbefore d hd
    · rcases List.mem_cons.mp hd with rfl | hd
      · exact htaken p hlt hfits hchain
      · exact hafter d hd
  | delivered =>
    intro d hd
    exact (List.mem_append.mp hd).elim (hbefore d) (hafter d)

/-- The keys stay the same, or that of the fragment's entry goes. -/
theorem Stored.keys {o : Opened (Reassdata K H)} {ds' : List (Reassdata K H)} (h : Stored o f ds' ev)
    (hkeys : ((o.before ++ o.here :: o.after).map Reassdata.key).Nodup)
    (hnew : o.here.p = [] → o.before = []) : (ds'.map Reassdata.key).Nodup := by
  have hsub : ((o.before ++ o.after).map Reassdata.key).Nodup :=
    hkeys.sublist (((List.Sublist.refl _).append (List.sublist_cons_self _ _)).map _)
  cases h with
  | refused =>
    split
    case isTrue hp =>
      rw [hnew hp] at hsub
      exact hsub
    case isFalse => exact hkeys
  | queued =>
    rw [List.map_append, List.map_cons] at hkeys ⊢
    exact hkeys
  | delivered => exact hsub

/-- An entry with a fragment, or one made for this call. -/
theorem Inv.stored (o : Opened (Reassdata K H)) (count : Nat) (hsane : Sane o.here)
    (hbefore : ∀ d ∈ o.before ++ o.after, Sane d ∧ d.p ≠ [])
    (hkeys : ((o.before ++ o.here :: o.after).map Reassdata.key).Nodup)
    (hnew : o.here.p = [] → o.before = [] ∧ o.here.last = false)
    (hcount : count = total (o.before ++ o.here :: o.after))
    (hroom : count + f.clen ≤ ipReassMaxPbufs) :
    ∃ s' ev, store count o f = some (s', ev) ∧ Inv s' ∧ Stored o f s'.reassdatagrams ev := by
  obtain ⟨s', ev, hstore, hstored, htotal, hbound⟩ := store_spec hsane hnew hcount hroom
  have hall : ∀ d ∈ s'.reassdatagrams, Sane d ∧ d.p ≠ [] :=
    hstored.forall (fun d hd => hbefore d (List.mem_append_left _ hd))
      (fun d hd => hbefore d (List.mem_append_right _ hd)) (fun hp => ⟨hsane, hp⟩)
      fun p _ _ hchain => hsane.taken hchain
  exact ⟨s', ev, hstore, ⟨fun d hd => (hall d hd).1, fun d hd => (hall d hd).2,
    hstored.keys hkeys fun hp => (hnew hp).1, htotal, hbound⟩, hstored⟩

/-- With room for it, a fragment is stored. -/
theorem ip4Reass_room [DecidableEq K] (hinv : Inv s) (hroom : s.pbufcount + f.clen ≤ ipReassMaxPbufs) :
    ∃ s' ev, Inv s' ∧ Effect f s.reassdatagrams s'.reassdatagrams ev ∧
      match lookFor f.key s.reassdatagrams with
      | some o => store s.pbufcount { o with here := takeHeader o.here f } f = some (s', ev)
      | none => store s.pbufcount ⟨[], fresh f, s.reassdatagrams⟩ f = some (s', ev) := by
  have hlook := lookFor_spec f.key s.reassdatagrams
  have hcount := hinv.count
  cases hfind : lookFor f.key s.reassdatagrams with
  | some o =>
    rw [hfind] at hlook
    obtain ⟨hs, hkey⟩ := hlook
    have hall : ∀ d ∈ o.before ++ o.here :: o.after, Sane d ∧ d.p ≠ [] := by
      rw [← hs]
      exact fun d hd => ⟨hinv.sane d hd, hinv.nonempty d hd⟩
    have hhere := hall o.here (by simp)
    have hp : (takeHeader o.here f).p ≠ [] := by simpa using hhere.2
    obtain ⟨s', ev, hstore, hinv', hstored⟩ := Inv.stored (f := f)
      { o with here := takeHeader o.here f } s.pbufcount (hhere.1.takeHeader f)
      (fun d hd => hall d (by
        rw [List.mem_append] at hd
        rw [List.mem_append, List.mem_cons]
        tauto))
      (by
        have hkeys := hinv.keys
        rw [hs] at hkeys
        simpa using hkeys)
      (fun h => absurd h hp)
      (by rw [hcount, hs]; simp [pbufs])
      hroom
    exact ⟨s', ev, hinv', .known hs hkey hstored, hstore⟩
  | none =>
    rw [hfind] at hlook
    obtain ⟨s', ev, hstore, hinv', hstored⟩ := Inv.stored (f := f)
      ⟨[], fresh f, s.reassdatagrams⟩ s.pbufcount (sane_fresh f)
      (fun d hd => ⟨hinv.sane d hd, hinv.nonempty d hd⟩)
      (by
        rw [List.nil_append, List.map_cons, List.nodup_cons]
        refine ⟨fun hmem => ?_, hinv.keys⟩
        obtain ⟨d, hd, hkey⟩ := List.mem_map.mp hmem
        exact hlook d hd hkey)
      (fun _ => ⟨rfl, rfl⟩)
      (by rw [hcount]; simp [pbufs, fresh])
      hroom
    exact ⟨s', ev, hinv', .first hlook hstored, hstore⟩

/-- A fragment never fails an assertion.  Entries may go for it; then it is dropped, or
stored.  With room for it none goes, and it is dropped only if its header has options. -/
theorem ip4Reass_spec [DecidableEq K] (f : Frag K H) (hinv : Inv s) :
    ∃ s₁ ev₁ s' ev, ip4Reass s f = some (s', ev₁ ++ ev) ∧ Inv s' ∧ Shed s s₁ ev₁ ∧
      (s' = s₁ ∧ ev = [] ∨ Effect f s₁.reassdatagrams s'.reassdatagrams ev) ∧
      (f.hl = ipHlen → s.pbufcount + f.clen ≤ ipReassMaxPbufs →
        s₁ = s ∧ ev₁ = [] ∧ Effect f s.reassdatagrams s'.reassdatagrams ev) := by
  by_cases hhl : f.hl ≠ ipHlen
  · exact ⟨s, [], s, [], by rw [ip4Reass, if_pos hhl]; rfl, hinv, Shed.refl s, .inl ⟨rfl, rfl⟩,
      fun h => absurd h hhl⟩
  · obtain ⟨s₁, ev₁, ok, hmake, hinv₁, hshed, hok, hroom⟩ := makeRoom_spec f hinv
    cases ok with
    | false =>
      refine ⟨s₁, ev₁, s₁, [], ?_, hinv₁, hshed, .inl ⟨rfl, rfl⟩, fun _ h => ?_⟩
      · simp only [ip4Reass, if_neg hhl, hmake, List.append_nil]
      · cases (hroom h).2.2
    | true =>
      obtain ⟨s', ev, hinv', heffect, hstore⟩ := ip4Reass_room (f := f) hinv₁ (hok rfl)
      refine ⟨s₁, ev₁, s', ev, ?_, hinv', hshed, .inr heffect, fun _ h => ?_⟩
      · simp only [ip4Reass, if_neg hhl, hmake]
        cases hfind : lookFor f.key s₁.reassdatagrams with
        | some o =>
          rw [hfind] at hstore
          dsimp only at hstore ⊢
          rw [hstore, Option.map_some]
        | none =>
          rw [hfind] at hstore
          dsimp only at hstore ⊢
          rw [enqueueNewDatagram_eq f hinv₁ (hok rfl)]
          dsimp only
          rw [← fresh, hstore, Option.map_some, List.append_nil]
      · obtain ⟨rfl, rfl, -⟩ := hroom h
        exact ⟨rfl, rfl, heffect⟩

/-- An entry a second later. -/
def aged (ipr : Reassdata K H) : Reassdata K H := { ipr with timer := ipr.timer - 1 }

theorem age_spec (l : List (Reassdata K H)) (count rest : Nat) (hsane : ∀ d ∈ l, Sane d)
    (hne : ∀ d ∈ l, d.p ≠ []) (hcount : count = total l + rest) (hbound : count ≤ ipReassMaxPbufs) :
    ∃ l' ev, age count l = some (l', total l' + rest, ev) ∧ l'.Sublist (l.map aged) ∧
      NoneDelivered ev ∧ total l' + rest ≤ ipReassMaxPbufs ∧
      ((∀ d ∈ l, 0 < d.timer) → l' = l.map aged) := by
  induction l generalizing count rest with
  | nil => exact ⟨[], [], by rw [age, hcount], .slnil, noneDelivered_nil, by omega, fun _ => rfl⟩
  | cons r l ih =>
    rw [total_cons] at hcount
    have hsane' : ∀ d ∈ l, Sane d := fun d hd => hsane d (.tail _ hd)
    have hne' : ∀ d ∈ l, d.p ≠ [] := fun d hd => hne d (.tail _ hd)
    by_cases htimer : r.timer > 0
    · obtain ⟨l', ev, hage, hsub, hev, hle, hall⟩ :=
        ih count (pbufs r + rest) hsane' hne' (by omega) hbound
      refine ⟨aged r :: l', ev, ?_, hsub.cons_cons _, hev, ?_, fun h => ?_⟩
      · simp only [age, if_pos htimer, hage, Option.map_some, total_cons]
        rw [show pbufs (aged r) = pbufs r from rfl, Nat.add_left_comm, Nat.add_assoc, aged]
      · rw [total_cons, show pbufs (aged r) = pbufs r from rfl]
        omega
      · rw [hall fun d hd => h d (.tail _ hd), List.map_cons]
    · obtain ⟨ev, hfree, hev⟩ := freeCompleteDatagram_spec (hne r (.head _)) (by omega) hbound
      obtain ⟨l', ev', hage, hsub, hev', hle, -⟩ :=
        ih (count - pbufs r) rest hsane' hne' (by omega) (by omega)
      refine ⟨l', ev ++ ev', ?_, hsub.cons _, hev.append hev', hle, fun h => ?_⟩
      · simp only [age, if_neg htimer, hfree, hage, Option.map_some]
      · exact absurd (h r (.head _)) htimer

theorem Sane.aged (h : Sane ipr) : Sane (aged ipr) := ⟨h.spread, h.tag_pos, h.last⟩

/-- The timer never fails an assertion: entries go, the others grow older. -/
theorem ipReassTmr_spec (hinv : Inv s) :
    ∃ s' ev, ipReassTmr s = some (s', ev) ∧ Inv s' ∧ NoneDelivered ev ∧
      s'.reassdatagrams.Sublist (s.reassdatagrams.map aged) ∧
      ((∀ d ∈ s.reassdatagrams, 0 < d.timer) → s'.reassdatagrams = s.reassdatagrams.map aged) := by
  obtain ⟨l', ev, hage, hsub, hev, hle, hall⟩ :=
    age_spec s.reassdatagrams s.pbufcount 0 hinv.sane hinv.nonempty hinv.count hinv.bound
  have hfrom : ∀ d ∈ l', ∃ d₀ ∈ s.reassdatagrams, aged d₀ = d := fun d hd =>
    List.mem_map.mp (hsub.subset hd)
  refine ⟨⟨l', total l' + 0⟩, ev, by rw [ipReassTmr, hage]; rfl, ?_, hev, hsub, hall⟩
  exact {
    sane := fun d hd => by
      obtain ⟨d₀, hd₀, rfl⟩ := hfrom d hd
      exact (hinv.sane d₀ hd₀).aged
    nonempty := fun d hd => by
      obtain ⟨d₀, hd₀, rfl⟩ := hfrom d hd
      exact hinv.nonempty d₀ hd₀
    keys := by
      have hkeys := hinv.keys
      rw [show s.reassdatagrams.map Reassdata.key = (s.reassdatagrams.map aged).map Reassdata.key by
        rw [List.map_map]; rfl] at hkeys
      exact hkeys.sublist (hsub.map _)
    count := rfl
    bound := hle }

theorem inv_init : Inv (⟨[], 0⟩ : State K H) :=
  ⟨fun _ h => absurd h List.not_mem_nil, fun _ h => absurd h List.not_mem_nil, List.nodup_nil, rfl,
    Nat.zero_le _⟩

section

variable [DecidableEq K]

theorem exists_step (op : Op K H) (hinv : Inv s) :
    ∃ s' ev, (machine K H).step s op = some (s', ev) ∧ Inv s' := by
  cases op with
  | input f =>
    obtain ⟨s₁, ev₁, s', ev, hstep, hinv', -⟩ := ip4Reass_spec f hinv
    exact ⟨s', ev₁ ++ ev, hstep, hinv'⟩
  | tmr =>
    obtain ⟨s', ev, hstep, hinv', -⟩ := ipReassTmr_spec hinv
    exact ⟨s', ev, hstep, hinv'⟩

theorem inv_of_run {tr : List (Transition (State K H) (Op K H) (List (Event K H)))}
    (h : Run (machine K H) tr s) : Inv s := by
  refine h.invariant inv_init fun t op t' o hinv hs => ?_
  obtain ⟨s', ev, hstep, hinv'⟩ := exists_step op hinv
  rw [hs] at hstep
  cases hstep
  exact hinv'

/-- **Reassembly keeps its accounts.**  Whatever fragments arrive in whatever order, and
whenever the timer comes, `ip_reass_pbufcount` is the number of buffers held and at most
60, so the pool of entries suffices; the entries are for different datagrams, and each has
fragments, in order and without overlap; and no assertion of the source can fail. -/
theorem reass_accounts {tr : List (Transition (State K H) (Op K H) (List (Event K H)))}
    (h : Run (machine K H) tr s) :
    s.pbufcount = total s.reassdatagrams ∧ s.pbufcount ≤ 60 ∧
    s.reassdatagrams.length ≤ mempNumReassdata ∧ (s.reassdatagrams.map Reassdata.key).Nodup ∧
    (∀ ipr ∈ s.reassdatagrams, ipr.p ≠ [] ∧ Spread ipr.p) ∧
    ∀ op, ((machine K H).step s op).isSome = true := by
  have hinv := inv_of_run h
  have hlen := length_le_total hinv.sane hinv.nonempty
  have hcount := hinv.count
  have hbound := hinv.bound
  refine ⟨hcount, hbound, ?_, hinv.keys, fun d hd => ⟨hinv.nonempty d hd, (hinv.sane d hd).spread⟩,
    fun op => ?_⟩
  · rw [← hcount] at hlen
    exact hlen.trans hbound
  · obtain ⟨s', ev, hstep, -⟩ := exists_step op hinv
    rw [hstep]
    rfl

end

/-- Two datagrams are begun, a fragment comes twice, one overlaps another, and the timer
comes by: three fragments of six buffers are held. -/
def mixed : List (Op Nat Nat) :=
  [Op.ofPacket 1 7 20 1 false [9, 9] 2,
    Op.ofPacket 2 8 20 0 true (List.replicate 8 5) 1,
    Op.ofPacket 1 7 20 1 false [9, 9] 2,
    some .tmr,
    Op.ofPacket 2 8 20 0 true (List.replicate 16 6) 1,
    Op.ofPacket 2 8 20 2 true (List.replicate 8 7) 3].reduceOption

theorem reass_accounts_mixed :
    ((machine Nat Nat).stateOf mixed).pbufcount = 6 ∧
    total ((machine Nat Nat).stateOf mixed).reassdatagrams = 6 ∧
    ∀ op, ((machine Nat Nat).step ((machine Nat Nat).stateOf mixed) op).isSome = true := by
  have hexec : ((machine Nat Nat).exec (machine Nat Nat).init mixed).isSome = true := by
    decide +kernel
  have hall := reass_accounts (Machine.run_exec hexec)
  have hsix : ((machine Nat Nat).stateOf mixed).pbufcount = 6 := by decide +kernel
  exact ⟨hsix, hall.1.symm.trans hsix, hall.2.2.2.2.2⟩

end Reass
end Lwip
end LuatosPc
