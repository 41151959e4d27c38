import LuatosPc.Base.Bytes
import LuatosPc.Base.Ledger

/-!
# Name resolution of the libuv adapter

`libuv_dns` of `port/network/luat_network_adapter_libuv.c` puts a name into a record on
the heap and hands it to `uv_getaddrinfo`; `on_resolved` finds the record again, tells
the network task, and frees it.  Any number of queries may be under way, and libuv
answers them in any order.

* `DnsQuery` — `uv_dns_query_t`; `Dns` — the records on the heap, the queries libuv works
  on, and the events sent so far.
* `libuvDns`, `onResolved` — the call and its callback.
* `step_books`, `step_sound` — what one step does to the books and to the heap.
* `dns_answered_once` — every query that got a record is answered by one event; the
  records are freed then and never before; and the name resolved is the name asked for.
-/

namespace LuatosPc
namespace Libuv
namespace Dns

open Bytes

/-- A pointer, in a register of 64 bits. -/
abbrev Ptr := UInt64

/-- `uv_dns_query_t` at its address; what is handed to libuv besides the name is the
same for all queries. -/
structure DnsQuery where
  addr : Ptr
  /-- `domain`, an array of 256 bytes. -/
  domain : Block
  param : Ptr
  deriving DecidableEq

/-- An EV_NW_DNS_RESULT event.  `cb_to_nw_task` takes its parameters as `uint32_t`, and
only the parameter of a socket event is replaced by a pointer afterwards. -/
structure DnsEvent where
  param1 : UInt32
  param2 : UInt32
  param3 : UInt32
  deriving DecidableEq

/-- `luat_dns_ip_result` at its address. -/
structure DnsIpResult where
  addr : Ptr
  ip : UInt32
  ttlEnd : Nat
  deriving DecidableEq

/-- The queries of the adapter. -/
structure State where
  /-- The records of the queries on the heap. -/
  blocks : List Ptr
  /-- The queries libuv still owes a callback for. -/
  pending : List DnsQuery
  /-- The answers made for the network task, which frees them, oldest first. -/
  results : List DnsIpResult
  /-- The events sent to the network task, oldest first. -/
  events : List DnsEvent

/-- No query has been made. -/
def start : State := ⟨[], [], [], []⟩

/-- `luat_heap_zalloc`: an address that is in use is not handed out again. -/
def zalloc (σ : State) (p : Ptr) : Option State :=
  if p ∈ σ.blocks then none else some { σ with blocks := p :: σ.blocks }

/-- `luat_heap_free`; `none` if there is no such block.  A record is freed here once it has been
passed to that function; what the heap does with it is not looked at. -/
def free (σ : State) (p : Ptr) : Option State :=
  if p ∈ σ.blocks then some { σ with blocks := σ.blocks.erase p } else none

/-- `cb_to_nw_task(EV_NW_DNS_RESULT, ..)`; `posted` says whether the message could be
allocated and its async handle initialised. -/
def cbToNwTask (σ : State) (posted : Bool) (param1 : UInt32) (param2 param3 : Ptr) : State :=
  if posted then
    { σ with events := σ.events ++ [⟨param1, param2.toUInt32, param3.toUInt32⟩] }
  else σ

/-- `libuv_dns`.  `block` is what the heap answers, `r` what `uv_getaddrinfo` returns.
`none` is a write past the end of `domain`, or a name in it that does not end. -/
def libuvDns (σ : State) (name : List UInt8) (param : Ptr) (block : Option Ptr) (r : Int)
    (posted : Bool) : Option (State × Int) :=
  match block with
  | none => some (σ, -1)
  | some p => do
    let σ ← zalloc σ p
    let domain ← store (List.replicate 256 0) 0 name
    if 0 ∉ domain then none
    else if r ≠ 0 then
      let σ ← free σ p
      some (cbToNwTask σ posted 0 0 param, r)
    else some ({ σ with pending := σ.pending ++ [⟨p, domain, param⟩] }, r)

/-- `on_resolved`.  `ip` is the address in `res`, `block` what the heap answers; `none`
is a write through a NULL pointer, or a second `free`. -/
def onResolved (σ : State) (q : DnsQuery) (status : Int) (ip : UInt32) (block : Option Ptr)
    (posted : Bool) : Option State :=
  if status < 0 then free (cbToNwTask σ posted 0 0 q.param) q.addr
  else
    match block with
    | none => none
    | some a =>
      let σ := { σ with results := σ.results ++ [⟨a, ip, 60⟩] }
      free (cbToNwTask σ posted 1 a q.param) q.addr

/-- One action; the arguments besides the name and the parameter are decided by libuv
and the heap. -/
inductive Op
  | dns (name : List UInt8) (param : Ptr) (block : Option Ptr) (r : Int) (posted : Bool)
  | resolved (q : DnsQuery) (status : Int) (ip : UInt32) (block : Option Ptr) (posted : Bool)
  deriving DecidableEq

/-- One action, with the value returned. -/
def step (σ : State) : Op → Option (State × Int)
  | .dns name param block r posted => libuvDns σ name param block r posted
  | .resolved q status ip block posted =>
    if q ∈ σ.pending then
      (onResolved { σ with pending := σ.pending.erase q } q status ip block posted).map (·, 0)
    else none

/-- The queries under every sequence of calls and callbacks. -/
def machine : Machine State Op Int := ⟨start, step⟩

/-- A transition. -/
abbrev Trans := Transition State Op Int

/-- The parameter of a query that got a record. -/
def asked (e : Trans) : Multiset Ptr :=
  match e.act with
  | .dns _ param (some _) _ _ => {param}
  | _ => 0

/-- The parameter of a query whose end is reported. -/
def answered (e : Trans) : Multiset Ptr :=
  match e.act with
  | .dns _ param (some _) r _ => if r ≠ 0 then {param} else 0
  | .resolved q _ _ _ _ => {q.param}
  | _ => 0

/-- The parameters of the queries that are under way. -/
def State.waiting (σ : State) : Multiset Ptr := (σ.pending.map DnsQuery.param : List Ptr)

/-- The event that an action sends. -/
def Op.report : Op → List DnsEvent
  | .dns _ param (some _) r true => if r ≠ 0 then [⟨0, 0, param.toUInt32⟩] else []
  | .resolved q status _ block true =>
    if status < 0 then [⟨0, 0, q.param.toUInt32⟩]
    else [⟨1, (block.getD 0).toUInt32, q.param.toUInt32⟩]
  | _ => []

/-- The answer that an action makes. -/
def Op.result : Op → List DnsIpResult
  | .resolved _ status ip (some a) _ => if status < 0 then [] else [⟨a, ip, 60⟩]
  | _ => []

/-! ## What a step does -/

/-- What `domain` holds once a name has been copied into it. -/
def domainOf (name : List UInt8) : Block := name ++ List.replicate (256 - name.length) 0

variable {σ σ' : State} {op : Op} {o : Int} {name : List UInt8} {param : Ptr} {r : Int}
  {block : Option Ptr} {posted : Bool} {q : DnsQuery} {status : Int} {ip : UInt32}

theorem store_domain {d : Block} (h : store (List.replicate 256 0) 0 name = some d) :
    name.length ≤ 256 ∧ d = domainOf name := by
  by_cases hlen : name.length ≤ 256
  · rw [store_zeros hlen] at h
    exact ⟨hlen, (Option.some.inj h).symm⟩
  · rw [store_of_lt (by rintro rfl; simp at hlen) (by rw [List.length_replicate]; omega)] at h
    cases h

theorem free_zalloc {p : Ptr} (h : zalloc σ p = some σ') :
    p ∉ σ.blocks ∧ σ' = { σ with blocks := p :: σ.blocks } ∧ free σ' p = some σ := by
  unfold zalloc at h
  split at h
  · cases h
  case isFalse hp =>
    obtain rfl := Option.some.inj h
    exact ⟨hp, rfl, by simp [free]⟩

/-- What `libuv_dns` can do: find no memory, be refused by libuv, or leave a query. -/
theorem libuvDns_cases (h : libuvDns σ name param block r posted = some (σ', o)) :
    (block = none ∧ σ' = σ) ∨
    ∃ p, block = some p ∧ p ∉ σ.blocks ∧ name.length ≤ 256 ∧ o = r ∧
      (r ≠ 0 ∧ σ' = cbToNwTask σ posted 0 0 param ∨
        r = 0 ∧ σ' = { σ with
          blocks := p :: σ.blocks, pending := σ.pending ++ [⟨p, domainOf name, param⟩] }) := by
  cases block with
  | none =>
    simp only [libuvDns, Option.some.injEq, Prod.mk.injEq] at h
    exact .inl ⟨rfl, h.1.symm⟩
  | some p =>
    simp only [libuvDns, Option.bind_eq_bind, Option.bind_eq_some_iff] at h
    obtain ⟨τ, hz, d, hd, h⟩ := h
    obtain ⟨hlen, rfl⟩ := store_domain hd
    obtain ⟨hp, rfl, hfree⟩ := free_zalloc hz
    refine .inr ⟨p, rfl, hp, hlen, ?_⟩
    split at h
    · cases h
    · split at h
      case isTrue hr =>
        simp only [hfree, Option.bind_some, Option.some.injEq, Prod.mk.injEq] at h
        exact ⟨h.2.symm, .inl ⟨hr, h.1.symm⟩⟩
      case isFalse hr =>
        simp only [Option.some.injEq, Prod.mk.injEq] at h
        exact ⟨h.2.symm, .inr ⟨not_not.1 hr, h.1.symm⟩⟩

theorem free_eq_some {p : Ptr} (h : free σ p = some σ') :
    p ∈ σ.blocks ∧ σ' = { σ with blocks := σ.blocks.erase p } := by
  unfold free at h
  split at h
  case isTrue hp => exact ⟨hp, (Option.some.inj h).symm⟩
  case isFalse => cases h

/-- `on_resolved` makes the answer, sends the event and frees the record. -/
theorem onResolved_eq_some (h : onResolved σ q status ip block posted = some σ') :
    q.addr ∈ σ.blocks ∧
      σ' = { σ with
        blocks := σ.blocks.erase q.addr
        results := σ.results ++ (Op.resolved q status ip block posted).result
        events := σ.events ++ (Op.resolved q status ip block posted).report } := by
  unfold onResolved at h
  split at h
  case isTrue hst =>
    obtain ⟨hp, rfl⟩ := free_eq_some h
    cases posted <;> cases block <;>
      simpa [cbToNwTask, Op.result, Op.report, hst] using hp
  case isFalse hst =>
    cases block with
    | none => cases h
    | some a =>
      obtain ⟨hp, rfl⟩ := free_eq_some h
      cases posted <;> simpa [cbToNwTask, Op.result, Op.report, hst] using hp

theorem step_resolved_eq_some (h : step σ (.resolved q status ip block posted) = some (σ', o)) :
    q ∈ σ.pending ∧ q.addr ∈ σ.blocks ∧
      σ' = { blocks := σ.blocks.erase q.addr
             pending := σ.pending.erase q
             results := σ.results ++ (Op.resolved q status ip block posted).result
             events := σ.events ++ (Op.resolved q status ip block posted).report } := by
  simp only [step] at h
  split at h
  case isFalse => cases h
  case isTrue hq =>
    obtain ⟨τ, hτ, he⟩ := Option.map_eq_some_iff.1 h
    obtain ⟨hp, hσ⟩ := onResolved_eq_some hτ
    obtain ⟨rfl, rfl⟩ := Prod.mk.inj he
    exact ⟨hq, hp, hσ⟩

/-- The books of one step. -/
theorem step_books (h : step σ op = some (σ', o)) :
    answered ⟨σ, op, o, σ'⟩ + σ'.waiting = σ.waiting + asked ⟨σ, op, o, σ'⟩ := by
  cases op with
  | dns name param block r posted =>
    obtain ⟨rfl, rfl⟩ | ⟨p, rfl, -, -, -, ⟨hr, rfl⟩ | ⟨hr, rfl⟩⟩ := libuvDns_cases h
    · simp [answered, asked]
    · cases posted <;> simp [answered, asked, hr, State.waiting, cbToNwTask, add_comm]
    · simp only [answered, asked, hr, State.waiting, List.map_append, ← Multiset.coe_add,
        ne_eq, not_true_eq_false, if_false, zero_add]
      rfl
  | resolved q status ip block posted =>
    obtain ⟨hq, -, rfl⟩ := step_resolved_eq_some h
    have hperm := (List.perm_cons_erase hq).map DnsQuery.param
    simp only [answered, asked, State.waiting, add_zero]
    exact (Multiset.coe_eq_coe.2 hperm).symm

theorem step_log (h : step σ op = some (σ', o)) :
    σ'.events = σ.events ++ op.report ∧ σ'.results = σ.results ++ op.result := by
  cases op with
  | dns name param block r posted =>
    obtain ⟨rfl, rfl⟩ | ⟨p, rfl, -, -, -, ⟨hr, rfl⟩ | ⟨hr, rfl⟩⟩ := libuvDns_cases h
    · simp [Op.report, Op.result]
    · cases posted <;> simp [Op.report, Op.result, hr, cbToNwTask]
    · cases posted <;> simp [Op.report, Op.result, hr]
  | resolved q status ip block posted =>
    obtain ⟨-, -, rfl⟩ := step_resolved_eq_some h
    exact ⟨rfl, rfl⟩

/-- A record stands on the heap for each query under way, and for nothing else. -/
structure Sound (σ : State) : Prop where
  owned : σ.blocks.Perm (σ.pending.map DnsQuery.addr)
  distinct : σ.blocks.Nodup

theorem step_sound (hσ : Sound σ) (h : step σ op = some (σ', o)) : Sound σ' := by
  cases op with
  | dns name param block r posted =>
    obtain ⟨rfl, rfl⟩ | ⟨p, rfl, hp, -, -, ⟨-, rfl⟩ | ⟨-, rfl⟩⟩ := libuvDns_cases h
    · exact hσ
    · cases posted <;> exact ⟨hσ.owned, hσ.distinct⟩
    · refine ⟨?_, List.nodup_cons.2 ⟨hp, hσ.distinct⟩⟩
      rw [List.map_append]
      exact (hσ.owned.cons p).trans (List.perm_append_singleton p _).symm
  | resolved q status ip block posted =>
    obtain ⟨hq, -, rfl⟩ := step_resolved_eq_some h
    refine ⟨?_, hσ.distinct.erase _⟩
    have hperm := hσ.owned.trans ((List.perm_cons_erase hq).map DnsQuery.addr)
    simpa using hperm.erase q.addr

/-- The query that a call to `libuv_dns` leaves. -/
def Op.query? : Op → Option DnsQuery
  | .dns name param (some p) 0 _ => some ⟨p, domainOf name, param⟩
  | _ => none

/-- A query under way was left by a call. -/
theorem step_pending (h : step σ op = some (σ', o)) (hq : q ∈ σ'.pending) :
    q ∈ σ.pending ∨ op.query? = some q := by
  cases op with
  | dns name param block r posted =>
    obtain ⟨rfl, rfl⟩ | ⟨p, rfl, -, -, -, ⟨-, rfl⟩ | ⟨rfl, rfl⟩⟩ := libuvDns_cases h
    · exact .inl hq
    · cases posted <;> exact .inl hq
    · obtain hq | hq := List.mem_append.1 hq
      · exact .inl hq
      · exact .inr (by rw [List.mem_singleton.1 hq]; rfl)
  | resolved q' status ip block posted =>
    obtain ⟨-, -, rfl⟩ := step_resolved_eq_some h
    exact .inl (List.mem_of_mem_erase hq)

theorem bytes_domainOf (h0 : 0 ∉ name) : (cstr (domainOf name)).bytes = name :=
  bytes_cstr_zeros h0 _

/-- The callback of a query under way finds its record and frees it, unless it has to write
through a NULL pointer. -/
theorem step_resolved_iff (hσ : Sound σ) (hq : q ∈ σ.pending) :
    (∃ σ', step σ (.resolved q status ip block posted) = some (σ', 0) ∧ q.addr ∉ σ'.blocks) ↔
      (status < 0 ∨ block ≠ none) := by
  have hp : q.addr ∈ σ.blocks := hσ.owned.mem_iff.2 (List.mem_map_of_mem hq)
  have hgone : q.addr ∉ σ.blocks.erase q.addr := hσ.distinct.not_mem_erase
  simp only [step, hq, if_true, onResolved]
  by_cases hst : status < 0
  · cases posted <;> simp [hst, cbToNwTask, free, hp, hgone]
  · cases block with
    | none => simp [hst]
    | some a => cases posted <;> simp [hst, cbToNwTask, free, hp, hgone]

/-- The name fits `domain` with a 0 behind it, or has a 0 in it. -/
def NameFits (name : List UInt8) : Prop := name.length < 256 ∨ name.length = 256 ∧ 0 ∈ name

instance : DecidablePred NameFits := fun _ => inferInstanceAs (Decidable (_ ∨ _))

theorem zero_mem_domainOf_iff (hlen : name.length ≤ 256) : 0 ∈ domainOf name ↔ NameFits name := by
  rw [domainOf, List.mem_append, List.mem_replicate, NameFits]
  by_cases h : name.length = 256
  · simp [h]
  · have hlt : name.length < 256 := Nat.lt_of_le_of_ne hlen h
    exact iff_of_true (.inr ⟨by omega, rfl⟩) (.inl hlt)

/-- A call comes back exactly if it gets no record or the name fits into it. -/
theorem step_dns_isSome_iff (hnew : ∀ p, block = some p → p ∉ σ.blocks) :
    (step σ (.dns name param block r posted)).isSome = true ↔ block = none ∨ NameFits name := by
  cases block with
  | none => simp [step, libuvDns]
  | some p =>
    have hp : p ∉ σ.blocks := hnew p rfl
    simp only [step, libuvDns, zalloc, hp, if_false, Option.bind_eq_bind, Option.bind_some,
      reduceCtorEq, false_or]
    by_cases hlen : name.length ≤ 256
    · rw [store_zeros hlen, ← domainOf, Option.bind_some, ← zero_mem_domainOf_iff hlen]
      by_cases h0 : 0 ∈ domainOf name
      · by_cases hr : r = 0 <;> simp [h0, hr, free]
      · simp [h0]
    · have hnone : store (List.replicate 256 0) 0 name = none :=
        store_of_lt (by rintro rfl; simp at hlen) (by rw [List.length_replicate]; omega)
      have hbig : ¬ NameFits name := by
        unfold NameFits
        omega
      rw [hnone]
      exact iff_of_false Bool.false_ne_true hbig

/-! ## Over every run -/

section Runs

variable {tr : List Trans}

theorem run_sound (h : Run machine tr σ) : Sound σ :=
  h.invariant ⟨.nil, .nil⟩ fun _ _ _ _ hσ hs => step_sound hσ hs

theorem run_pending (h : Run machine tr σ) (hq : q ∈ σ.pending) :
    ∃ e ∈ tr, e.act.query? = some q := by
  refine h.toPath.history_invariant (C := fun _ => True)
    (I := fun tr σ => ∀ q ∈ σ.pending, ∃ e ∈ tr, Op.query? e.act = some q)
    (fun _ _ => trivial) (by simp [machine, start]) ?_ q hq
  intro tr s a s' o hI hs _ q hq
  obtain hq | hq := step_pending hs hq
  · obtain ⟨e, he, hact⟩ := hI q hq
    exact ⟨e, List.mem_append_left _ he, hact⟩
  · exact ⟨⟨s, a, o, s'⟩, by simp, hq⟩

theorem run_log (h : Run machine tr σ) :
    σ.events = tr.flatMap (fun e => e.act.report) ∧
      σ.results = tr.flatMap (fun e => e.act.result) :=
  ⟨h.toPath.log fun _ _ _ _ hs => (step_log hs).1, h.toPath.log fun _ _ _ _ hs => (step_log hs).2⟩

/-- **Every query is answered once.**  Whatever order the calls and the callbacks come
in, the queries that got a record are those whose end has been reported and those under
way; events and answers are exactly the reported ones, in order; a record stands on the
heap for each query under way and for no other; the name libuv reads in it is the name
of the call.  The callback finds the record, and frees it, exactly if the name could not be
resolved or there is memory for the answer.  A further call that gets a record comes back
exactly if its name fits into it. -/
theorem dns_answered_once (h : Run machine tr σ) :
    (tr.map answered).sum + σ.waiting = (tr.map asked).sum ∧
    σ.events = tr.flatMap (fun e => e.act.report) ∧
    σ.results = tr.flatMap (fun e => e.act.result) ∧
    σ.blocks.Perm (σ.pending.map DnsQuery.addr) ∧ σ.blocks.Nodup ∧
    (∀ q ∈ σ.pending,
      (∃ e ∈ tr, ∃ name posted, e.act = .dns name q.param (some q.addr) 0 posted ∧
        (0 ∉ name → (cstr q.domain).bytes = name)) ∧
      ∀ status ip block posted,
        (∃ σ', step σ (.resolved q status ip block posted) = some (σ', 0) ∧
          q.addr ∉ σ'.blocks) ↔ status < 0 ∨ block ≠ none) ∧
    ∀ name param block r posted, (∀ p, block = some p → p ∉ σ.blocks) →
      ((step σ (.dns name param block r posted)).isSome = true ↔
        block = none ∨ NameFits name) := by
  have hσ := run_sound h
  refine ⟨h.ledger rfl fun _ _ _ _ hs => step_books hs, (run_log h).1, (run_log h).2,
    hσ.owned, hσ.distinct, fun q hq => ⟨?_, fun _ _ _ _ => step_resolved_iff hσ hq⟩,
    fun _ _ _ _ _ hnew => step_dns_isSome_iff hnew⟩
  obtain ⟨e, he, hact⟩ := run_pending h hq
  obtain ⟨s, a, o, s'⟩ := e
  cases a with
  | resolved => cases hact
  | dns name param block r posted =>
    refine ⟨_, he, name, posted, ?_⟩
    simp only [Op.query?] at hact
    split at hact
    case h_2 => cases hact
    case h_1 name' param' p posted' heq =>
      obtain ⟨rfl, rfl, rfl, rfl, rfl⟩ := Op.dns.inj heq
      obtain rfl := Option.some.inj hact
      exact ⟨rfl, bytes_domainOf⟩

/-- Three queries: libuv refuses the second, and answers the third before the first. -/
def threeQueries : List Op :=
  [.dns [97] 1 (some 16) 0 true, .dns [98] 2 (some 32) (-12) true,
    .dns [99] 3 (some 32) 0 true,
    .resolved ⟨32, domainOf [99], 3⟩ 0 0x0100007f (some 0x7f0000000040) true]

theorem dns_answered_once_threeQueries :
    (machine.stateOf threeQueries).waiting = {1} ∧
    (machine.stateOf threeQueries).events = [⟨0, 0, 2⟩, ⟨1, 0x40, 3⟩] ∧
    (∀ status ip a posted, ∃ σ', step (machine.stateOf threeQueries)
      (.resolved ⟨16, domainOf [97], 1⟩ status ip (some a) posted) = some (σ', 0) ∧
        16 ∉ σ'.blocks) ∧
    step (machine.stateOf threeQueries)
      (.dns (List.replicate 256 100) 4 (some 32) 0 true) = none := by
  have hexec : (machine.exec machine.init threeQueries).isSome = true := by decide +kernel
  have hall := dns_answered_once (Machine.run_exec hexec)
  have hpending : ⟨16, domainOf [97], 1⟩ ∈ (machine.stateOf threeQueries).pending := by decide +kernel
  refine ⟨by decide +kernel, ?_, fun status ip a posted => ?_, ?_⟩
  · rw [hall.2.1]
    decide +kernel
  · exact ((hall.2.2.2.2.2.1 _ hpending).2 status ip (some a) posted).2 (.inr (by simp))
  · -- the next record would be free, but a name of 256 bytes does not end in it
    have hfree : 32 ∉ (machine.stateOf threeQueries).blocks := by decide +kernel
    have hiff := hall.2.2.2.2.2.2 (List.replicate 256 100) 4 (some 32) 0 true
      fun p hp => Option.some.inj hp ▸ hfree
    have hbig : ¬ NameFits (List.replicate 256 100) := by decide +kernel
    rw [← Option.not_isSome_iff_eq_none, hiff, not_or]
    exact ⟨Option.some_ne_none _, hbig⟩

end Runs

end Dns
end Libuv
end LuatosPc
