import LuatosPc.Base.Machine

/-!
# The pins of a CH347

The model of the GPIO functions of `luat_ch347_pc.c`: eight pins share three masks, which are
kept in static variables and passed to the device as a whole.

* `Report` — what the device reports; `Masks` — what is passed to `CH347GPIO_Set`.
* `luatCh347GpioSetup`, `luatCh347GpioSet`, `luatCh347GpioGet`, `luatCh347GpioClose` — the
  functions of the source.
* `Act`, `step`, `machine` — any sequence of calls, with any reports.
* `setUpAs`, `otherClosed` — what the calls have made of a pin.
* `Holds` — what the bits of a pin are; `Holds.setup`, `Holds.set`, `Holds.get`, `Holds.close` —
  what a call does to them; `run_holds` — what they are after any calls.
* `gpio_independent_iff` — which calls on other pins leave the bits of a pin alone, and when it is
  enabled.
-/

namespace LuatosPc.Driver.Ch347

/-- `s_Gpiostatus`, `s_Gpiovalues` and `s_Gpioflag`. -/
structure State where
  gpiostatus : BitVec 16
  gpiovalues : BitVec 16
  gpioflag : BitVec 8
  deriving DecidableEq

/-- What `CH347GPIO_Get` gives: the directions and the levels of the pins. -/
structure Report where
  dir : BitVec 8
  data : BitVec 8
  deriving DecidableEq

/-- What `CH347GPIO_Set` is called with. -/
structure Masks where
  enable : BitVec 8
  dirOut : BitVec 8
  dataOut : BitVec 8
  deriving DecidableEq

/-! ## The functions of the source -/

/-- `pin >= 0 && pin <= 7`. -/
def validPin (pin : Int) : Bool := 0 ≤ pin && pin ≤ 7

/-- The masks as they are. -/
def State.masks (s : State) : Masks :=
  ⟨s.gpioflag, (s.gpiostatus &&& 0x00FF#16).setWidth 8, (s.gpiovalues &&& 0x00FF#16).setWidth 8⟩

/-- `luat_ch347_gpio_get`, with its result. -/
def luatCh347GpioGet (s : State) (pin : Int) (r : Report) : State × Nat :=
  let s := { s with
    gpiostatus := s.gpiostatus ||| (0x8000#16 ||| r.dir.setWidth 16)
    gpiovalues := s.gpiovalues ||| (0x8000#16 ||| r.data.setWidth 16) }
  (s, if validPin pin then (r.data.toNat >>> pin.toNat) &&& 1 else 1)

/-- The device is asked the first time that its pins are used. -/
def initialise (s : State) (r : Report) : State :=
  if s.gpiostatus &&& 0x8000#16 = 0 ∨ s.gpiovalues &&& 0x8000#16 = 0 then
    (luatCh347GpioGet s (-1) r).1
  else s

/-- `luat_ch347_gpio_setup`, with what is passed to the device. -/
def luatCh347GpioSetup (s : State) (pin mode : Int) (r : Report) : State × Option Masks :=
  if validPin pin then
    let s := initialise s r
    let s := { s with gpioflag := s.gpioflag ||| 1#8 <<< pin.toNat }
    let s :=
      if mode = 0 then { s with gpiostatus := s.gpiostatus ||| 1#16 <<< pin.toNat }
      else { s with gpiostatus := s.gpiostatus &&& ~~~(1#16 <<< pin.toNat) }
    (s, some s.masks)
  else (s, none)

/-- `luat_ch347_gpio_set`. -/
def luatCh347GpioSet (s : State) (pin level : Int) (r : Report) : State × Option Masks :=
  if validPin pin then
    let s := initialise s r
    let s :=
      if level ≠ 0 then { s with gpiovalues := s.gpiovalues ||| 1#16 <<< pin.toNat }
      else { s with gpiovalues := s.gpiovalues &&& ~~~(1#16 <<< pin.toNat) }
    (s, some s.masks)
  else (s, none)

/-- `luat_ch347_gpio_close`.  The mask is `!(1 << pin)`, which is 0 for every pin. -/
def luatCh347GpioClose (s : State) (pin : Int) : State :=
  if validPin pin then
    { s with gpioflag := s.gpioflag &&& if 1#32 <<< pin.toNat = 0 then 1#8 else 0#8 }
  else s

/-- One call. -/
inductive Act
  | setup (pin mode : Int) (r : Report)
  | set (pin level : Int) (r : Report)
  | get (pin : Int) (r : Report)
  | close (pin : Int)
  deriving DecidableEq

/-- What a call gives: what it passes to the device, or a level. -/
inductive Answer
  | passed (masks : Option Masks)
  | level (n : Nat)
  | closed
  deriving DecidableEq

/-- One step. -/
def step (s : State) : Act → Option (State × Answer)
  | .setup pin mode r =>
    let (s, masks) := luatCh347GpioSetup s pin mode r
    some (s, .passed masks)
  | .set pin level r =>
    let (s, masks) := luatCh347GpioSet s pin level r
    some (s, .passed masks)
  | .get pin r =>
    let (s, n) := luatCh347GpioGet s pin r
    some (s, .level n)
  | .close pin => some (luatCh347GpioClose s pin, .closed)

/-- Any sequence of calls. -/
def machine : Machine State Act Answer := ⟨⟨0, 0, 0⟩, step⟩

/-- A transition. -/
abbrev Trans := Transition State Act Answer

/-! ## The bits of a pin -/

/-- The bits of a pin: enabled, an output, driven high. -/
structure Pin where
  enabled : Bool
  output : Bool
  high : Bool
  deriving DecidableEq

/-- The bits of a pin in the masks. -/
def Masks.pin (m : Masks) (q : Fin 8) : Pin :=
  ⟨m.enable.getLsbD q, m.dirOut.getLsbD q, m.dataOut.getLsbD q⟩

theorem masks_pin (s : State) (q : Fin 8) :
    s.masks.pin q = ⟨s.gpioflag.getLsbD q, s.gpiostatus.getLsbD q, s.gpiovalues.getLsbD q⟩ := by
  have hlow : ∀ x : BitVec 16, ((x &&& 0x00FF#16).setWidth 8).getLsbD q = x.getLsbD q := by
    intro x
    have hmask : ∀ q : Fin 8, (0x00FF#16).getLsbD q = true := by decide
    rw [BitVec.getLsbD_setWidth, BitVec.getLsbD_and, hmask, Bool.and_true]
    simp
  simp only [State.masks, Masks.pin, hlow]

/-- The bit of one pin. -/
theorem getLsbD_oneShift {n : Nat} (k : Nat) {i : Nat} (hi : i < n) :
    (1#n <<< k).getLsbD i = decide (i = k) := by
  rw [← BitVec.twoPow_eq, BitVec.getLsbD_twoPow]
  by_cases h : i = k
  · simp [h, h ▸ hi]
  · simp [h, Ne.symm h]

theorem getLsbD_setBit {n : Nat} (x : BitVec n) (k : Nat) {i : Nat} (hi : i < n) :
    (x ||| 1#n <<< k).getLsbD i = (x.getLsbD i || decide (i = k)) := by
  rw [BitVec.getLsbD_or, getLsbD_oneShift k hi]

theorem getLsbD_clearBit {n : Nat} (x : BitVec n) (k : Nat) {i : Nat} (hi : i < n) :
    (x &&& ~~~(1#n <<< k)).getLsbD i = (x.getLsbD i && !decide (i = k)) := by
  rw [BitVec.getLsbD_and, BitVec.getLsbD_not, getLsbD_oneShift k hi, decide_eq_true hi,
    Bool.true_and]

theorem and_top_eq_zero_iff (x : BitVec 16) : x &&& 0x8000#16 = 0 ↔ x.getLsbD 15 = false := by
  rw [show 0x8000#16 = BitVec.twoPow 16 15 from rfl, BitVec.and_twoPow]
  cases x.getLsbD 15 with
  | false => simp
  | true => decide

/-- The device has been asked. -/
def State.Ready (s : State) : Prop := s.gpiostatus.getLsbD 15 ∧ s.gpiovalues.getLsbD 15

theorem initialise_of_ready {s : State} (h : s.Ready) (r : Report) : initialise s r = s := by
  refine if_neg ?_
  rw [and_top_eq_zero_iff, and_top_eq_zero_iff, h.1, h.2]
  decide

theorem validPin_iff {pin : Int} : validPin pin = true ↔ 0 ≤ pin ∧ pin ≤ 7 := by
  simp [validPin]

section

variable (s : State) {pin : Int} (r : Report) (q : Fin 8)

theorem get_pin (pin : Int) :
    (luatCh347GpioGet s pin r).1.masks.pin q =
      ⟨(s.masks.pin q).enabled, (s.masks.pin q).output || r.dir.getLsbD q,
        (s.masks.pin q).high || r.data.getLsbD q⟩ := by
  have htop : ∀ q : Fin 8, (0x8000#16).getLsbD q = false := by decide
  have hwide : ∀ x : BitVec 8, (x.setWidth 16).getLsbD q = x.getLsbD q := by
    intro x
    rw [BitVec.getLsbD_setWidth]
    simp [show (q : Nat) < 16 by omega]
  simp only [masks_pin, luatCh347GpioGet, BitVec.getLsbD_or, htop, hwide, Bool.false_or]

theorem get_ready (pin : Int) : (luatCh347GpioGet s pin r).1.Ready := by
  simp [State.Ready, luatCh347GpioGet]

theorem initialise_ready : (initialise s r).Ready := by
  unfold initialise
  split
  · exact get_ready s r (-1)
  · rename_i hready
    rw [and_top_eq_zero_iff, and_top_eq_zero_iff, not_or, Bool.not_eq_false,
      Bool.not_eq_false] at hready
    exact hready

/-- Asking the device enables nothing, and makes no output an input. -/
theorem initialise_pin :
    ((initialise s r).masks.pin q).enabled = (s.masks.pin q).enabled ∧
      ((s.masks.pin q).output = true → ((initialise s r).masks.pin q).output = true) := by
  unfold initialise
  split
  · rw [get_pin]
    exact ⟨rfl, fun h => by rw [h]; rfl⟩
  · exact ⟨rfl, id⟩

variable (hpin : validPin pin = true)

include hpin

/-- Whether the bit of one pin is that of another. -/
theorem pin_decide : decide ((q : Nat) = pin.toNat) = decide (pin = (q : Nat)) := by
  have := validPin_iff.1 hpin
  rw [decide_eq_decide]
  omega

theorem setup_pin (mode : Int) :
    (luatCh347GpioSetup s pin mode r).1.masks.pin q =
      if pin = (q : Nat) then ⟨true, decide (mode = 0), ((initialise s r).masks.pin q).high⟩
      else (initialise s r).masks.pin q := by
  have h16 : (q : Nat) < 16 := by omega
  have hbit := pin_decide q hpin
  rw [luatCh347GpioSetup, if_pos hpin]
  by_cases hmode : mode = 0
  · simp only [hmode, if_true, masks_pin, getLsbD_setBit _ _ q.isLt, getLsbD_setBit _ _ h16, hbit]
    by_cases hq : pin = (q : Nat)
    · simp only [hq, if_true, decide_true, Bool.or_true]
    · simp only [hq, if_false, decide_false, Bool.or_false]
  · simp only [hmode, if_false, masks_pin, getLsbD_setBit _ _ q.isLt, getLsbD_clearBit _ _ h16,
      hbit]
    by_cases hq : pin = (q : Nat)
    · simp only [hq, if_true, decide_true, decide_false, Bool.or_true, Bool.not_true,
        Bool.and_false]
    · simp only [hq, if_false, decide_false, Bool.or_false, Bool.not_false, Bool.and_true]

theorem set_pin (level : Int) :
    (luatCh347GpioSet s pin level r).1.masks.pin q =
      if pin = (q : Nat) then
        { (initialise s r).masks.pin q with high := !decide (level = 0) }
      else (initialise s r).masks.pin q := by
  have h16 : (q : Nat) < 16 := by omega
  have hbit := pin_decide q hpin
  rw [luatCh347GpioSet, if_pos hpin]
  by_cases hlevel : level = 0
  · simp only [hlevel, ne_eq, not_true_eq_false, if_false, masks_pin, getLsbD_clearBit _ _ h16,
      hbit]
    by_cases hq : pin = (q : Nat)
    · simp only [hq, if_true, decide_true, Bool.not_true, Bool.and_false]
    · simp only [hq, if_false, decide_false, Bool.not_false, Bool.and_true]
  · simp only [hlevel, ne_eq, not_false_eq_true, if_true, masks_pin, getLsbD_setBit _ _ h16, hbit]
    by_cases hq : pin = (q : Nat)
    · simp only [hq, if_true, decide_true, decide_false, Bool.or_true, Bool.not_false]
    · simp only [hq, if_false, decide_false, Bool.or_false]

/-- Changing the bit of a pin leaves the device asked. -/
theorem top_bit (x : BitVec 16) :
    (x ||| 1#16 <<< pin.toNat).getLsbD 15 = x.getLsbD 15 ∧
      (x &&& ~~~(1#16 <<< pin.toNat)).getLsbD 15 = x.getLsbD 15 := by
  have hne : ¬ 15 = pin.toNat := by
    have := validPin_iff.1 hpin
    omega
  rw [getLsbD_setBit _ _ (by decide), getLsbD_clearBit _ _ (by decide)]
  simp [hne]

theorem setup_ready (mode : Int) : (luatCh347GpioSetup s pin mode r).1.Ready := by
  obtain ⟨hstatus, hvalues⟩ := initialise_ready s r
  rw [luatCh347GpioSetup, if_pos hpin]
  dsimp only
  split
  · exact ⟨(top_bit hpin _).1.trans hstatus, hvalues⟩
  · exact ⟨(top_bit hpin _).2.trans hstatus, hvalues⟩

theorem set_ready (level : Int) : (luatCh347GpioSet s pin level r).1.Ready := by
  obtain ⟨hstatus, hvalues⟩ := initialise_ready s r
  rw [luatCh347GpioSet, if_pos hpin]
  dsimp only
  split
  · exact ⟨hstatus, (top_bit hpin _).1.trans hvalues⟩
  · exact ⟨hstatus, (top_bit hpin _).2.trans hvalues⟩

omit r in
/-- **A pin is closed**, and with it all the others. -/
theorem close_pin :
    (luatCh347GpioClose s pin).masks.pin q = { s.masks.pin q with enabled := false } := by
  have hrange := validPin_iff.1 hpin
  have hne : 1#32 <<< pin.toNat ≠ 0 := by
    intro hzero
    have hbit := getLsbD_oneShift (n := 32) pin.toNat (i := pin.toNat) (by omega)
    rw [hzero] at hbit
    simp at hbit
  rw [luatCh347GpioClose, if_pos hpin, if_neg hne]
  simp [masks_pin]

end

theorem close_ready {s : State} (h : s.Ready) (pin : Int) : (luatCh347GpioClose s pin).Ready := by
  unfold luatCh347GpioClose
  split <;> exact h

/-! ## What the calls have made of a pin -/

/-- The pin that a call is for. -/
def Act.pin : Act → Int
  | setup pin _ _ => pin
  | set pin _ _ => pin
  | get pin _ => pin
  | close pin => pin

/-- The mode in which a pin is set up, if it is. -/
def setUpNext (q : Fin 8) (cur : Option Int) : Act → Option Int
  | .setup pin mode _ => if pin = (q : Nat) then some mode else cur
  | .close pin => if pin = (q : Nat) then none else cur
  | _ => cur

/-- The mode in which the last call left a pin set up, if it has not been closed since. -/
def setUpAs (q : Fin 8) (tr : List Trans) : Option Int :=
  tr.foldl (fun cur e => setUpNext q cur e.act) none

def otherClosedNext (q : Fin 8) (cur : Bool) : Act → Bool
  | .setup pin _ _ => if pin = (q : Nat) then false else cur
  | .close pin => cur || validPin pin && !decide (pin = (q : Nat))
  | _ => cur

/-- Another pin has been closed since a pin was set up. -/
def otherClosed (q : Fin 8) (tr : List Trans) : Bool :=
  tr.foldl (fun cur e => otherClosedNext q cur e.act) false

theorem setUpAs_concat (q : Fin 8) (tr : List Trans) (e : Trans) :
    setUpAs q (tr ++ [e]) = setUpNext q (setUpAs q tr) e.act := by
  simp [setUpAs]

theorem otherClosed_concat (q : Fin 8) (tr : List Trans) (e : Trans) :
    otherClosed q (tr ++ [e]) = otherClosedNext q (otherClosed q tr) e.act := by
  simp [otherClosed]

/-- What the bits of a pin are after some calls. -/
structure Holds (q : Fin 8) (mode : Option Int) (closed : Bool) (s : State) : Prop where
  ready : mode ≠ none → s.Ready
  output : mode = some 0 → (s.masks.pin q).output = true
  enabled : (s.masks.pin q).enabled = true ↔ mode ≠ none ∧ closed = false

theorem ne_of_not_valid {pin : Int} (h : ¬ validPin pin = true) (q : Fin 8) : pin ≠ (q : Nat) := by
  rw [validPin_iff] at h
  omega

section

variable {q : Fin 8} {mode : Option Int} {closed : Bool} {s : State}

/-- A call that asks the device at most keeps all of that. -/
theorem Holds.of_pin (h : Holds q mode closed s) {s' : State} (hready : s.Ready → s'.Ready)
    (henabled : (s'.masks.pin q).enabled = (s.masks.pin q).enabled)
    (houtput : (s.masks.pin q).output = true → (s'.masks.pin q).output = true) :
    Holds q mode closed s' :=
  ⟨fun hmode => hready (h.ready hmode), fun hmode => houtput (h.output hmode),
    henabled ▸ h.enabled⟩

theorem Holds.setup (h : Holds q mode closed s) (pin m : Int) (r : Report) :
    Holds q (setUpNext q mode (.setup pin m r)) (otherClosedNext q closed (.setup pin m r))
      (luatCh347GpioSetup s pin m r).1 := by
  by_cases hpin : validPin pin = true
  · have hbits := setup_pin s r q hpin m
    by_cases hq : pin = (q : Nat)
    · rw [if_pos hq] at hbits
      simp only [setUpNext, otherClosedNext, if_pos hq]
      refine ⟨fun _ => setup_ready s r hpin m, ?_, ?_⟩
      · intro hmode
        cases hmode
        rw [hbits]
        rfl
      · rw [hbits]
        simp
    · rw [if_neg hq] at hbits
      simp only [setUpNext, otherClosedNext, if_neg hq]
      obtain ⟨henabled, houtput⟩ := initialise_pin s r q
      exact h.of_pin (fun _ => setup_ready s r hpin m) (hbits ▸ henabled) (hbits ▸ houtput)
  · have hq := ne_of_not_valid hpin q
    simp only [setUpNext, otherClosedNext, if_neg hq]
    rw [luatCh347GpioSetup, if_neg hpin]
    exact h

theorem Holds.set (h : Holds q mode closed s) (pin level : Int) (r : Report) :
    Holds q mode closed (luatCh347GpioSet s pin level r).1 := by
  by_cases hpin : validPin pin = true
  · have hbits := set_pin s r q hpin level
    obtain ⟨henabled, houtput⟩ := initialise_pin s r q
    refine h.of_pin (fun _ => set_ready s r hpin level) ?_ ?_
    · rw [hbits]
      split <;> exact henabled
    · rw [hbits]
      split <;> exact houtput
  · rw [luatCh347GpioSet, if_neg hpin]
    exact h

theorem Holds.get (h : Holds q mode closed s) (pin : Int) (r : Report) :
    Holds q mode closed (luatCh347GpioGet s pin r).1 := by
  refine h.of_pin (fun _ => get_ready s r pin) ?_ ?_
  · rw [get_pin]
  · rw [get_pin]
    intro houtput
    rw [houtput, Bool.true_or]

theorem Holds.close (h : Holds q mode closed s) (pin : Int) :
    Holds q (setUpNext q mode (.close pin)) (otherClosedNext q closed (.close pin))
      (luatCh347GpioClose s pin) := by
  by_cases hpin : validPin pin = true
  · have hbits := close_pin s q hpin
    refine ⟨?_, ?_, ?_⟩
    · intro hmode
      refine close_ready (h.ready ?_) pin
      rintro rfl
      simp [setUpNext] at hmode
    · intro hmode
      rw [hbits]
      refine h.output ?_
      by_cases hq : pin = (q : Nat)
      · simp [setUpNext, hq] at hmode
      · simpa [setUpNext, hq] using hmode
    · rw [hbits]
      by_cases hq : pin = (q : Nat)
      · simp [setUpNext, hq]
      · simp [otherClosedNext, hq, hpin]
  · have hq := ne_of_not_valid hpin q
    rw [luatCh347GpioClose, if_neg hpin]
    simpa [setUpNext, otherClosedNext, hq, hpin] using h

end

/-- The state after a call. -/
def after (s : State) : Act → State
  | .setup pin mode r => (luatCh347GpioSetup s pin mode r).1
  | .set pin level r => (luatCh347GpioSet s pin level r).1
  | .get pin r => (luatCh347GpioGet s pin r).1
  | .close pin => luatCh347GpioClose s pin

theorem step_eq {s s' : State} {a : Act} {o : Answer} (h : step s a = some (s', o)) :
    s' = after s a := by
  cases a <;> exact (Prod.mk.inj (Option.some.inj h)).1.symm

/-- **After any calls**, a pin that is set up as an output is one, and it is enabled unless
another pin has been closed. -/
theorem run_holds {tr : List Trans} {s : State} (h : Run machine tr s) (q : Fin 8) :
    Holds q (setUpAs q tr) (otherClosed q tr) s := by
  induction h with
  | start =>
    refine ⟨fun hmode => absurd rfl hmode, fun hmode => (nomatch hmode), ?_⟩
    rw [masks_pin]
    simp [machine, setUpAs]
  | @snoc tr s s' a o hrun hstep ih =>
    rw [setUpAs_concat, otherClosed_concat]
    obtain rfl := step_eq hstep
    cases a with
    | setup pin mode r => exact ih.setup pin mode r
    | set pin level r => exact ih.set pin level r
    | get pin r => exact ih.get pin r
    | close pin => exact ih.close pin

/-! ## Calls on other pins -/

/-- What a call on another pin makes of the bits of a pin. -/
def Act.onOther (q : Fin 8) (p : Pin) : Act → Pin
  | get _ r => ⟨p.enabled, p.output || r.dir.getLsbD q, p.high || r.data.getLsbD q⟩
  | close pin => if validPin pin then { p with enabled := false } else p
  | _ => p

/-- **A call on another pin**, once the device has been asked. -/
theorem step_onOther {s s' : State} {a : Act} {o : Answer} (hready : s.Ready)
    (hstep : step s a = some (s', o)) {q : Fin 8} (hother : a.pin ≠ (q : Nat)) :
    s'.masks.pin q = a.onOther q (s.masks.pin q) := by
  obtain rfl := step_eq hstep
  cases a with
  | setup pin mode r =>
    have hother : pin ≠ (q : Nat) := hother
    by_cases hpin : validPin pin = true
    · rw [after, setup_pin s r q hpin, if_neg hother, initialise_of_ready hready]
      rfl
    · rw [after, luatCh347GpioSetup, if_neg hpin]
      rfl
  | set pin level r =>
    have hother : pin ≠ (q : Nat) := hother
    by_cases hpin : validPin pin = true
    · rw [after, set_pin s r q hpin, if_neg hother, initialise_of_ready hready]
      rfl
    · rw [after, luatCh347GpioSet, if_neg hpin]
      rfl
  | get pin r => exact get_pin s r q pin
  | close pin =>
    by_cases hpin : validPin pin = true
    · rw [after, close_pin s q hpin, Act.onOther, if_pos hpin]
    · rw [after, luatCh347GpioClose, if_neg hpin, Act.onOther, if_neg hpin]

/-- The call is one that leaves the bits of another pin alone: nothing is closed that is enabled,
and no level is taken for one that is to be driven. -/
def Act.Harmless (q : Fin 8) (p : Pin) : Act → Prop
  | get _ r => r.data.getLsbD q = true → p.high = true
  | close pin => validPin pin = true → p.enabled = false
  | _ => True

theorem onOther_eq_iff {q : Fin 8} {p : Pin} (houtput : p.output = true) (a : Act) :
    a.onOther q p = p ↔ a.Harmless q p := by
  obtain ⟨enabled, output, high⟩ := p
  obtain rfl : output = true := houtput
  cases a with
  | setup | set => exact iff_of_true rfl trivial
  | get pin r =>
    simp only [Act.onOther, Act.Harmless, Bool.true_or, Pin.mk.injEq, true_and]
    cases high <;> cases r.data.getLsbD q <;> decide
  | close pin =>
    simp only [Act.onOther, Act.Harmless]
    cases validPin pin <;> cases enabled <;> simp

/-- `luat_ch347_gpio_setup` passes the masks as they are then. -/
theorem setup_passed {s : State} {pin mode : Int} {r : Report} {m : Masks}
    (h : (luatCh347GpioSetup s pin mode r).2 = some m) :
    m = (luatCh347GpioSetup s pin mode r).1.masks := by
  unfold luatCh347GpioSetup at h ⊢
  split at h
  · rename_i hpin
    rw [if_pos hpin]
    exact (Option.some.inj h).symm
  · cases h

theorem set_passed {s : State} {pin level : Int} {r : Report} {m : Masks}
    (h : (luatCh347GpioSet s pin level r).2 = some m) :
    m = (luatCh347GpioSet s pin level r).1.masks := by
  unfold luatCh347GpioSet at h ⊢
  split at h
  · rename_i hpin
    rw [if_pos hpin]
    exact (Option.some.inj h).symm
  · cases h

/-- What is passed to the device are the masks as they are then. -/
theorem passed_eq {s s' : State} {a : Act} {m : Masks}
    (h : step s a = some (s', .passed (some m))) : m = s'.masks := by
  obtain rfl := step_eq h
  cases a with
  | setup pin mode r =>
    exact setup_passed (Answer.passed.inj (Prod.mk.inj (Option.some.inj h)).2)
  | set pin level r =>
    exact set_passed (Answer.passed.inj (Prod.mk.inj (Option.some.inj h)).2)
  | get pin r => cases (Prod.mk.inj (Option.some.inj h)).2
  | close pin => cases (Prod.mk.inj (Option.some.inj h)).2

/-- **The pins of a CH347.**  After any calls, a call on another pin changes the bits of a pin that
is set up as an output if and only if it closes the other pin while this one is enabled, or asks
for the levels while this one is low and reported as high.  The pin is enabled as it should be if
and only if no other pin has been closed since it was set up. -/
theorem gpio_independent_iff {tr : List Trans} {s : State} (h : Run machine tr s) (q : Fin 8) :
    (∀ (a : Act) (s' : State) (o : Answer), setUpAs q tr = some 0 → a.pin ≠ (q : Nat) →
      machine.step s a = some (s', o) →
      (s'.masks.pin q = s.masks.pin q ↔ a.Harmless q (s.masks.pin q)) ∧
        ∀ m, o = .passed (some m) → m = s'.masks) ∧
      (((s.masks.pin q).enabled = true ↔ setUpAs q tr ≠ none) ↔
        (setUpAs q tr ≠ none → otherClosed q tr = false)) := by
  have hholds := run_holds h q
  constructor
  · intro a s' o hmode hother hstep
    have hready : s.Ready := hholds.ready (by rw [hmode]; exact Option.some_ne_none 0)
    refine ⟨?_, ?_⟩
    · rw [step_onOther hready hstep hother]
      exact onOther_eq_iff (hholds.output hmode) a
    · rintro m rfl
      exact passed_eq hstep
  · rw [hholds.enabled]
    tauto

/-- Nothing is reported. -/
def noReport : Report := ⟨0, 0⟩

/-- Two pins are set up as outputs. -/
def twoOutputs : List Act := [.setup 0 0 noReport, .setup 1 0 noReport]

theorem gpio_independent_iff_set :
    setUpAs 0 (machine.traceOf twoOutputs) = some 0 ∧
      (after (machine.stateOf twoOutputs) (.set 1 1 noReport)).masks.pin 0 =
        (machine.stateOf twoOutputs).masks.pin 0 := by
  have hmode : setUpAs 0 (machine.traceOf twoOutputs) = some 0 := by decide
  have hrun : Run machine (machine.traceOf twoOutputs) (machine.stateOf twoOutputs) :=
    Machine.run_exec (by decide)
  have hpins := gpio_independent_iff hrun 0
  exact ⟨hmode, ((hpins.1 (.set 1 1 noReport) _ _ hmode (by decide) rfl).1).2 trivial⟩

/-- The second pin is closed: the first one is not enabled any more.  The levels are asked for: the
first pin, which is driven low, is driven high after that. -/
theorem gpio_not_independent :
    Run machine (machine.traceOf twoOutputs) (machine.stateOf twoOutputs) ∧
      (machine.stateOf twoOutputs).masks.pin 0 = ⟨true, true, false⟩ ∧
      (after (machine.stateOf twoOutputs) (.close 1)).masks.pin 0 = ⟨false, true, false⟩ ∧
      (after (machine.stateOf twoOutputs) (.get 1 ⟨0, 1⟩)).masks.pin 0 = ⟨true, true, true⟩ :=
  ⟨Machine.run_exec (by decide), by decide, by decide, by decide⟩

end LuatosPc.Driver.Ch347
