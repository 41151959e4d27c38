import LuatosPc.Base.Ledger
import LuatosPc.Driver.Ch347
import LuatosPc.Driver.Ztt

/-!
# The pins and the memory that they take

The model of `luat_gpio_pc.c`: 128 pins whose configuration and level are kept in arrays,
the first eight of which may be those of a CH347.  Every call on a pin makes a report, of
which nothing reads anything.

* `luatGpioSetup`, `luatGpioSet`, `luatGpioGet`, `luatGpioClose` — the functions of the
  source; `Env` — what the CH347 answers meanwhile.
* `Act`, `step`, `machine` — any sequence of calls, from any memory.
* `Act.values` — what a call reports; `step_leaves` — what it leaves behind.
* `Keeps` — no call gives back memory; `gpio_leaks` — no call faults, that is so, and each call
  that the allocator serves takes one block for good.
-/

namespace LuatosPc.Driver.Gpio

open Bytes (cstr ascii)
open Footprint Ztt
open Rtos (PtrSize Addr)

/-- `luat_gpio_t`. -/
structure Conf where
  pin : Int32
  mode : Int32
  pull : Int32
  irq : Int32
  deriving DecidableEq

/-- `gpio_confs`, `gpio_levels` and `g_ch3470_DevIsOpened`, the variables of the CH347, and
the memory. -/
structure State where
  confs : Fin 128 → Conf
  levels : Fin 128 → Bool
  opened : Bool
  ch347 : Ch347.State
  mem : Mem

/-- The modes of a pin that is read: `LUAT_GPIO_INPUT` and `LUAT_GPIO_IRQ`. -/
structure Modes where
  input : Int32
  irq : Int32

/-- What the CH347 answers: whether `luat_load_ch347` opens it, and what it reports. -/
structure Env where
  opens : Bool
  report : Ch347.Report

/-- The entry of a pin, if it has one. -/
def pinOf (pin : Int32) : Option (Fin 128) :=
  if h : 0 ≤ pin.toInt ∧ pin.toInt < 128 then some ⟨pin.toInt.toNat, by omega⟩ else none

section Functions

variable (w : PtrSize) (A : Allocator Addr Block) (modes : Modes)

/-- The report of a call on a pin. -/
def tell (s : State) (action : String) (fields : List Field) : Except Fault State := do
  let (_, mem) ← report w A (cstr (ascii "gpio"))
    (.str (cstr (ascii "action")) (cstr (ascii action)) :: fields) s.mem
  return { s with mem }

/-- `luat_gpio_setup`: a negative pin is not refused. -/
def luatGpioSetup (s : State) (gpio : Conf) (env : Env) : Except Fault (State × Int) :=
  if 128 ≤ gpio.pin.toInt then return (s, -1)
  else
    match pinOf gpio.pin with
    | none => throw .misuse
    | some i => do
      let s := { s with confs := Function.update s.confs i gpio }
      let s ← tell w A s "setup" [.int (cstr (ascii "pin")) gpio.pin,
        .int (cstr (ascii "mode")) gpio.mode, .int (cstr (ascii "pull")) gpio.pull,
        .int (cstr (ascii "irq")) gpio.irq]
      let s := if s.opened then s else { s with opened := env.opens }
      if s.opened then
        let (ch347, _) := Ch347.luatCh347GpioSetup s.ch347 gpio.pin.toInt gpio.mode.toInt env.report
        return ({ s with ch347 }, 0)
      else return (s, 0)

/-- `luat_gpio_set`. -/
def luatGpioSet (s : State) (pin level : Int32) (env : Env) : Except Fault (State × Int) :=
  match pinOf pin with
  | none => return (s, -1)
  | some i => do
    let s := { s with levels := Function.update s.levels i (level ≠ 0) }
    let s ← tell w A s "set" [.int (cstr (ascii "pin")) pin, .int (cstr (ascii "level")) level]
    if s.opened then
      let (ch347, _) := Ch347.luatCh347GpioSet s.ch347 pin.toInt level.toInt env.report
      return ({ s with ch347 }, 0)
    else return (s, 0)

/-- `luat_gpio_get`. -/
def luatGpioGet (s : State) (pin : Int32) (env : Env) : Except Fault (State × Int) :=
  match pinOf pin with
  | none => return (s, -1)
  | some i => do
    let s ← tell w A s "get" [.int (cstr (ascii "pin")) pin]
    if s.opened ∧ i.val ≤ 7 then
      let (ch347, level) := Ch347.luatCh347GpioGet s.ch347 pin.toInt env.report
      return ({ s with ch347 }, level)
    else if (s.confs i).mode = modes.input ∨ (s.confs i).mode = modes.irq then
      return (s, if s.levels i then 1 else 0)
    else return (s, 0)

/-- `luat_gpio_close`. -/
def luatGpioClose (s : State) (pin : Int32) (env : Env) : Except Fault State :=
  match pinOf pin with
  | none => return s
  | some i => do
    let s ← tell w A s "close" [.int (cstr (ascii "pin")) pin]
    let s := { s with confs := Function.update s.confs i ⟨0, modes.input, 0, 0⟩ }
    if s.opened then
      let (ch347, _) := Ch347.luatCh347GpioSetup s.ch347 pin.toInt modes.input.toInt env.report
      return { s with ch347 }
    else return s

/-- One call. -/
inductive Act
  | setup (gpio : Conf) (env : Env)
  | set (pin level : Int32) (env : Env)
  | get (pin : Int32) (env : Env)
  | close (pin : Int32) (env : Env)

def step (s : State) : Act → Option (State × Int)
  | .setup gpio env => (luatGpioSetup w A s gpio env).toOption
  | .set pin level env => (luatGpioSet w A s pin level env).toOption
  | .get pin env => (luatGpioGet w A modes s pin env).toOption
  | .close pin env => (luatGpioClose w A modes s pin env).toOption.map fun s => (s, 0)

/-- Any sequence of calls, from the memory `mem`. -/
def machine (mem : Mem) : Machine State Act Int :=
  ⟨⟨fun _ => ⟨0, 0, 0, 0⟩, fun _ => false, false, ⟨0, 0, 0⟩, mem⟩, step w A modes⟩

end Functions

/-! ## What the calls leave behind -/

theorem pinOf_eq_none_iff {pin : Int32} :
    pinOf pin = none ↔ pin.toInt < 0 ∨ 128 ≤ pin.toInt := by
  rw [pinOf]
  split
  · simp only [reduceCtorEq, false_iff]
    omega
  · simp only [true_iff]
    omega

/-- A call on a pin that has an entry, or that is refused. -/
def Act.Valid : Act → Prop
  | .setup gpio _ => 0 ≤ gpio.pin.toInt
  | _ => True

/-- What a call reports. -/
def Act.values (a : Act) : Option (List (List UInt8)) :=
  let told (pin : Int32) (action : String) (more : List Int32) :=
    (pinOf pin).map fun _ => ascii "gpio" :: ascii action :: (pin :: more).map intText
  match a with
  | .setup gpio _ => told gpio.pin "setup" [gpio.mode, gpio.pull, gpio.irq]
  | .set pin level _ => told pin "set" [level]
  | .get pin _ => told pin "get" []
  | .close pin _ => told pin "close" []

/-- The blocks `G` are what a call with these values leaves behind between two memories. -/
structure Leaves (values : Option (List (List UInt8))) (m m' : Mem)
    (G : Multiset (Cell Addr Block)) : Prop where
  cells_eq : cells m'.heap = G + cells m.heap
  left : match values with
    | none => m'.refused = m.refused ∧ G = 0
    | some vs => ∃ r n, m'.refused = m.refused + n ∧ Left vs r n G

section

variable {w : PtrSize} {A : Allocator Addr Block} {modes : Modes}

theorem Leaves.none (m : Mem) : Leaves none m m 0 := ⟨(zero_add _).symm, rfl, rfl⟩

/-- A report, and then something that does not touch the memory. -/
theorem tell_leaves {β : Type} (s : State) (action : String) (fields : List Field)
    {k : State → Except Fault β} (memOf : β → Mem)
    (hk : ∀ t : State, ∃ b, k t = .ok b ∧ memOf b = t.mem) :
    ∃ b G, (tell w A s action fields >>= k) = .ok b ∧
      Leaves (some ((cstr (ascii "gpio")).bytes :: (cstr (ascii action)).bytes ::
        fields.map Field.value)) s.mem (memOf b) G := by
  have hturns := report_turns (w := w) (A := A) (cstr (ascii "gpio"))
    (.str (cstr (ascii "action")) (cstr (ascii action)) :: fields)
  obtain ⟨r, mem, n, G, hy, hn, hG, hleft⟩ := hturns.ends (zero_add _).symm
  obtain ⟨b, hb, hmem⟩ := hk { s with mem }
  refine ⟨b, G, ?_, ?_, r, n, ?_, hleft⟩
  · rw [tell, show report w A _ _ s.mem = .ok (r, mem) from hy]
    exact hb
  · rw [hmem, hG]
  · rw [hmem, hn]

variable (s : State) (env : Env)

theorem luatGpioSetup_leaves {gpio : Conf} (hpos : 0 ≤ gpio.pin.toInt) :
    ∃ b G, luatGpioSetup w A s gpio env = .ok b ∧
      Leaves (Act.setup gpio env).values s.mem b.1.mem G := by
  cases hpin : pinOf gpio.pin with
  | none =>
    have hhigh : 128 ≤ gpio.pin.toInt := (pinOf_eq_none_iff.1 hpin).resolve_left (by omega)
    simp only [luatGpioSetup, Act.values, hpin, if_pos hhigh]
    exact ⟨_, 0, rfl, Leaves.none _⟩
  | some i =>
    have hlow : ¬ 128 ≤ gpio.pin.toInt := by
      intro hhigh
      rw [pinOf_eq_none_iff.2 (.inr hhigh)] at hpin
      cases hpin
    simp only [luatGpioSetup, Act.values, hpin, if_neg hlow]
    refine tell_leaves { s with confs := _ } "setup" _ (fun b : State × Int => b.1.mem) fun t => ?_
    split
    · exact ⟨_, rfl, rfl⟩
    · split <;> exact ⟨_, rfl, rfl⟩

theorem luatGpioSet_leaves (pin level : Int32) : ∃ b G, luatGpioSet w A s pin level env = .ok b ∧
    Leaves (Act.set pin level env).values s.mem b.1.mem G := by
  cases hpin : pinOf pin with
  | none =>
    simp only [luatGpioSet, Act.values, hpin]
    exact ⟨_, 0, rfl, Leaves.none _⟩
  | some i =>
    simp only [luatGpioSet, Act.values, hpin]
    refine tell_leaves { s with levels := _ } "set" _ (fun b : State × Int => b.1.mem) fun t => ?_
    split <;> exact ⟨_, rfl, rfl⟩

theorem luatGpioGet_leaves (pin : Int32) : ∃ b G, luatGpioGet w A modes s pin env = .ok b ∧
    Leaves (Act.get pin env).values s.mem b.1.mem G := by
  cases hpin : pinOf pin with
  | none =>
    simp only [luatGpioGet, Act.values, hpin]
    exact ⟨_, 0, rfl, Leaves.none _⟩
  | some i =>
    simp only [luatGpioGet, Act.values, hpin]
    refine tell_leaves s "get" _ (fun b : State × Int => b.1.mem) fun t => ?_
    split
    · exact ⟨_, rfl, rfl⟩
    · split <;> exact ⟨_, rfl, rfl⟩

theorem luatGpioClose_leaves (pin : Int32) : ∃ b G, luatGpioClose w A modes s pin env = .ok b ∧
    Leaves (Act.close pin env).values s.mem b.mem G := by
  cases hpin : pinOf pin with
  | none =>
    simp only [luatGpioClose, Act.values, hpin]
    exact ⟨_, 0, rfl, Leaves.none _⟩
  | some i =>
    simp only [luatGpioClose, Act.values, hpin]
    refine tell_leaves s "close" _ State.mem fun t => ?_
    split <;> exact ⟨_, rfl, rfl⟩

/-- **A call leaves blocks behind**, or does nothing. -/
theorem step_leaves {a : Act} (ha : a.Valid) :
    ∃ s' r G, step w A modes s a = some (s', r) ∧ Leaves a.values s.mem s'.mem G := by
  cases a with
  | setup gpio env =>
    obtain ⟨b, G, hb, hleaves⟩ := @luatGpioSetup_leaves w A s env gpio ha
    exact ⟨b.1, b.2, G, by rw [step, hb]; rfl, hleaves⟩
  | set pin level env =>
    obtain ⟨b, G, hb, hleaves⟩ := @luatGpioSet_leaves w A s env pin level
    exact ⟨b.1, b.2, G, by rw [step, hb]; rfl, hleaves⟩
  | get pin env =>
    obtain ⟨b, G, hb, hleaves⟩ := @luatGpioGet_leaves w A modes s env pin
    exact ⟨b.1, b.2, G, by rw [step, hb]; rfl, hleaves⟩
  | close pin env =>
    obtain ⟨s', G, hs', hleaves⟩ := @luatGpioClose_leaves w A modes s env pin
    exact ⟨s', 0, G, by rw [step, hs']; rfl, hleaves⟩

/-- Only calls that are valid get through. -/
theorem valid_of_step {s s' : State} {a : Act} {r : Int} (h : step w A modes s a = some (s', r)) :
    a.Valid := by
  cases a with
  | setup gpio env =>
    by_contra hneg
    have hlow : gpio.pin.toInt < 0 := Int.lt_of_not_ge hneg
    have hpin : pinOf gpio.pin = none := pinOf_eq_none_iff.2 (.inl hlow)
    simp only [step, luatGpioSetup, hpin, if_neg (by omega : ¬ 128 ≤ gpio.pin.toInt)] at h
    cases h
  | set | get | close => trivial

end

/-! ## Whole runs -/

/-- A call that has made a report, and none of whose requests was refused. -/
def served (e : Transition State Act Int) : Bool :=
  e.act.values.isSome && e.dst.mem.refused == e.src.mem.refused

/-- The buffer of a call's report. -/
def buffer (e : Transition State Act Int) : Option Block :=
  e.act.values.map fun vs => .text (message vs)

/-- The blocks `G` have come up since the memory was `m`. -/
structure Grown (m m' : Mem) (tr : List (Transition State Act Int))
    (G : Multiset (Cell Addr Block)) : Prop where
  refused_le : m.refused ≤ m'.refused
  cells_eq : cells m'.heap = G + cells m.heap
  served_le : (tr.filter served).length ≤ Multiset.card G
  buffers : m'.refused = m.refused → G.map Sigma.snd = (tr.filterMap buffer : Multiset Block)

theorem Grown.snoc {m m' : Mem} {tr : List (Transition State Act Int)}
    {e : Transition State Act Int} {G G' : Multiset (Cell Addr Block)} (h : Grown m m' tr G)
    (hsrc : e.src.mem = m') (hleaves : Leaves e.act.values m' e.dst.mem G') :
    Grown m e.dst.mem (tr ++ [e]) (G' + G) := by
  obtain ⟨hcells, hleft⟩ := hleaves
  have hle := h.refused_le
  have hserved := h.served_le
  have hcells' : cells e.dst.mem.heap = G' + G + cells m.heap := by
    rw [hcells, h.cells_eq, add_assoc]
  cases hv : e.act.values with
  | none =>
    rw [hv] at hleft
    obtain ⟨hrefused, rfl⟩ := hleft
    have hnot : served e = false := by simp [served, hv]
    refine ⟨by omega, hcells', ?_, ?_⟩
    · simpa [hnot] using hserved
    · intro heq
      simpa [buffer, hv] using h.buffers (by omega)
  | some vs =>
    rw [hv] at hleft
    obtain ⟨r, n, hrefused, hG'⟩ := hleft
    refine ⟨by omega, hcells', ?_, ?_⟩
    · rw [List.filter_append, List.length_append, Multiset.card_add]
      by_cases hn : n = 0
      · obtain ⟨a, rfl⟩ := hG'.eq_cell hn
        have hone := List.length_filter_le served [e]
        rw [List.length_singleton] at hone
        rw [cell, Multiset.card_singleton]
        omega
      · have hnot : served e = false := by
          simp only [served, Bool.and_eq_false_iff, beq_eq_false_iff_ne]
          exact .inr (by rw [hsrc]; omega)
        rw [List.filter_singleton, hnot, cond_false, List.length_nil]
        omega
    · intro heq
      obtain ⟨a, rfl⟩ := hG'.eq_cell (by omega)
      have hbuffer : buffer e = some (.text (message vs)) := by rw [buffer, hv, Option.map_some]
      rw [Multiset.map_add, h.buffers (by omega), List.filterMap_append, ← Multiset.coe_add,
        add_comm]
      simp [hbuffer, cell]

variable {w : PtrSize} {A : Allocator Addr Block} {modes : Modes}

/-- Nothing that was in memory before a call, or after it, is given back later. -/
def Keeps (tr : List (Transition State Act Int)) (m : Mem) : Prop :=
  ∀ e ∈ tr, cells e.src.mem.heap ≤ cells e.dst.mem.heap ∧ cells e.dst.mem.heap ≤ cells m.heap

theorem Keeps.snoc {m : Mem} {tr : List (Transition State Act Int)}
    {e : Transition State Act Int} {G : Multiset (Cell Addr Block)} (h : Keeps tr m)
    (hsrc : e.src.mem = m) (hleaves : Leaves e.act.values m e.dst.mem G) :
    Keeps (tr ++ [e]) e.dst.mem := by
  have hle : cells m.heap ≤ cells e.dst.mem.heap := by
    rw [hleaves.cells_eq]
    exact Multiset.le_add_left _ _
  intro e' he'
  rcases List.mem_append.mp he' with he' | he'
  · exact ⟨(h e' he').1, (h e' he').2.trans hle⟩
  · obtain rfl := List.mem_singleton.mp he'
    exact ⟨hsrc ▸ hle, le_rfl⟩

/-- **Every call on a pin costs a block.**  Whatever the allocator does: a valid call never
faults; no call gives back a block that was there before it, and what it has taken is still there
at the end; and there is at least one block more for every call that was served.  If nothing was
refused, the new blocks are the buffers of the reports, one for each call on a pin. -/
theorem gpio_leaks {mem : Mem} {tr : List (Transition State Act Int)} {s : State}
    (h : Run (machine w A modes mem) tr s) :
    (∀ a : Act, a.Valid → (step w A modes s a).isSome) ∧ Keeps tr s.mem ∧
      ∃ G, cells s.mem.heap = G + cells mem.heap ∧ (tr.filter served).length ≤ Multiset.card G ∧
        (s.mem.refused = mem.refused →
          G.map Sigma.snd = (tr.filterMap buffer : Multiset Block)) := by
  have hgrown : Keeps tr s.mem ∧ ∃ G, Grown mem s.mem tr G := by
    refine h.history_invariant (C := fun _ _ => True)
      (I := fun tr s => Keeps tr s.mem ∧ ∃ G, Grown mem s.mem tr G) (fun _ _ _ _ => trivial)
      ⟨fun _ he => absurd he List.not_mem_nil, 0, le_rfl, (zero_add _).symm, le_rfl, fun _ => rfl⟩ ?_
    intro tr s a s' r _ ⟨hkeeps, G, hG⟩ hs _
    obtain ⟨t, r', G', ht, hleaves⟩ :=
      @step_leaves w A modes s a (valid_of_step hs)
    obtain ⟨rfl, rfl⟩ : t = s' ∧ r' = r := by
      rw [show step w A modes s a = some (s', r) from hs] at ht
      simpa using ht.symm
    exact ⟨hkeeps.snoc (e := ⟨s, a, r', t⟩) rfl hleaves,
      G' + G, hG.snoc (e := ⟨s, a, r', t⟩) rfl hleaves⟩
  obtain ⟨hkeeps, G, hG⟩ := hgrown
  refine ⟨fun a ha => ?_, hkeeps, G, hG.cells_eq, hG.served_le, hG.buffers⟩
  obtain ⟨s', r, G, hs', -⟩ := @step_leaves w A modes s a ha
  rw [hs']
  rfl

/-- An allocator that gives out one address after the other. -/
def ascending : Allocator Addr Block where
  pick n h _ := if h.load (n + 1) = none then some (n + 1) else none
  junk _ _ := 0xAA
  fresh hpick := by
    split at hpick
    · rename_i hfree
      rw [← Option.some.inj hpick]
      exact hfree
    · cases hpick

/-- A pin is set up, set, read and closed, and one is set that does not exist. -/
def sampleActs : List Act :=
  let env : Env := ⟨false, 0, 0⟩
  [.setup ⟨3, 1, 0, 0⟩ env, .set 3 1 env, .set 200 1 env, .get 3 env, .close 3 env]

/-- The same calls by the pins' machine. -/
def sample : Machine State Act Int := machine .four ascending ⟨1, 2⟩ ⟨∅, 0, 0⟩

theorem gpio_leaks_four : (sample.exec sample.init sampleActs).isSome = true ∧
    ∃ G, cells (sample.stateOf sampleActs).mem.heap = G + cells ∅ ∧
      G.map Sigma.snd = (([ascii "gpio,setup,3,1,0,0,0", ascii "gpio,set,3,1,0",
        ascii "gpio,get,3,0", ascii "gpio,close,3,0"].map Block.text : List Block) :
        Multiset Block) := by
  have hexec : (sample.exec sample.init sampleActs).isSome = true := by decide +kernel
  have hrefused : (sample.stateOf sampleActs).mem.refused = 0 := by decide +kernel
  have hbuffers : (sample.traceOf sampleActs).filterMap buffer =
      [ascii "gpio,setup,3,1,0,0,0", ascii "gpio,set,3,1,0", ascii "gpio,get,3,0",
        ascii "gpio,close,3,0"].map Block.text := by decide +kernel
  have hrun : Run (machine .four ascending ⟨1, 2⟩ ⟨∅, 0, 0⟩) (sample.traceOf sampleActs)
      (sample.stateOf sampleActs) := Machine.run_exec hexec
  obtain ⟨-, -, G, hG, -, hmap⟩ := gpio_leaks hrun
  refine ⟨hexec, G, hG, ?_⟩
  rw [hmap hrefused, hbuffers]

end LuatosPc.Driver.Gpio
