import LuatosPc.Base.Bytes
import Mathlib.Data.List.Infix

/-!
# The id of the device

The model of `luat_mcu_unique_id` of `luat_mcu_pc.c`: the output of a command is read line
by line until there is a line without `UUID` in it, which is taken for the id.

* `fgets` — a line, or as much of it as there is room for; at the end of the output the
  buffer stays as it is.
* `copyChars`, `takeId`, `readLoop`, `luatMcuUniqueId` — the function of the source, with the
  number of rounds that its loop may make.
* `pieces` — what `fgets` reads, one after the other.
* `readLoop_of_find`, `readLoop_endless` — when the loop ends, and with which id.
* `mcu_id_ends_iff` — for which outputs the function ends.
-/

namespace LuatosPc.Driver.Mcu

open LuatosPc.Bytes

/-! ## The function of the source -/

/-- Why there is no result: the loop still runs, or a store is outside of its array. -/
inductive Stop
  | running
  | outside
  deriving DecidableEq, Repr

/-- The fields of `g_pcconf`. -/
structure PcConf where
  mcuUniqueIdLen : Nat
  mcuUniqueId : Block
  deriving DecidableEq, Repr

/-- The first line, with its end. -/
def lineOf : List UInt8 → List UInt8
  | [] => []
  | c :: cs => if c = 0x0A then [c] else c :: lineOf cs

/-- `fgets(buf, size, fp)`, with what is left to be read. -/
def fgets (buf : Block) (size : Nat) (input : List UInt8) : Option (Block × List UInt8) :=
  if input = [] then some (buf, input)
  else do
    let piece := lineOf (input.take (size - 1))
    let buf ← store buf 0 (piece ++ [0])
    return (buf, input.drop piece.length)

/-- `strstr(s, "UUID") != NULL`. -/
def HasUuid (s : List UInt8) : Prop := ascii "UUID" <:+: s

instance (s : List UInt8) : Decidable (HasUuid s) := inferInstanceAs (Decidable (_ <:+: _))

/-- `'-'`, `' '`, `'\r'` and `'\n'` are left out. -/
def kept (c : UInt8) : Bool := !(c == 0x2D || c == 0x20 || c == 0x0D || c == 0x0A)

/-- The loop that fills `buf2`, and counts `tmpi`. -/
def copyChars (buf2 : Block) (tmpi : Nat) : List UInt8 → Option (Nat × Block)
  | [] => some (tmpi, buf2)
  | c :: cs =>
    if kept c then (poke buf2 tmpi c).bind fun buf2 => copyChars buf2 (tmpi + 1) cs
    else copyChars buf2 tmpi cs

section

variable (fromhex : List UInt8 → List UInt8)

/-- What is done with the string `s` in `buf`; `fromhex` is `luat_str_fromhex`. -/
def takeId (conf : PcConf) (s : List UInt8) : Option PcConf := do
  let (tmpi, buf2) ← copyChars (List.replicate 128 0) 0 (s.take 64)
  let id ← store conf.mcuUniqueId 0 (fromhex (buf2.take tmpi))
  let id ← poke id (tmpi / 2) 0
  return ⟨tmpi / 2, id⟩

/-- The loop, with the number of rounds that it may make. -/
def readLoop (conf : PcConf) : Nat → Block → List UInt8 → Except Stop PcConf
  | 0, _, _ => .error .running
  | n + 1, buf, input =>
    match fgets buf 128 input with
    | none => .error .outside
    | some (buf, input) =>
      if HasUuid (cstr buf).bytes then readLoop conf n buf input
      else
        match takeId fromhex conf (cstr buf).bytes with
        | none => .error .outside
        | some conf => .ok conf

/-- `luat_mcu_unique_id`, where the command could be run; the result is in the configuration. -/
def luatMcuUniqueId (fuel : Nat) (output : List UInt8) (conf : PcConf) : Except Stop PcConf :=
  if conf.mcuUniqueIdLen ≠ 0 then .ok conf
  else readLoop fromhex conf fuel (List.replicate 128 0) output

end

/-! ## What is read -/

theorem lineOf_ne_nil {s : List UInt8} (h : s ≠ []) : lineOf s ≠ [] := by
  cases s with
  | nil => exact absurd rfl h
  | cons c cs =>
    rw [lineOf]
    split <;> exact List.cons_ne_nil _ _

theorem length_lineOf_le (s : List UInt8) : (lineOf s).length ≤ s.length := by
  induction s with
  | nil => exact le_refl 0
  | cons c cs ih =>
    rw [lineOf]
    split
    · simp
    · simpa using ih

/-- What one call of `fgets` reads. -/
def piece (input : List UInt8) : List UInt8 := lineOf (input.take 127)

theorem piece_ne_nil {input : List UInt8} (h : input ≠ []) : piece input ≠ [] :=
  lineOf_ne_nil (by simpa using h)

theorem length_piece_le (input : List UInt8) : (piece input).length ≤ 127 := by
  have := length_lineOf_le (input.take 127)
  rw [List.length_take] at this
  exact this.trans (Nat.min_le_left _ _)

/-- What the calls of `fgets` read, up to the end of the output. -/
def pieces (input : List UInt8) : List (List UInt8) :=
  if input = [] then [] else piece input :: pieces (input.drop (piece input).length)
termination_by input.length
decreasing_by
  have hinput := List.length_pos_iff.2 ‹input ≠ []›
  have hpiece := List.length_pos_iff.2 (piece_ne_nil ‹input ≠ []›)
  rw [List.length_drop]
  omega

theorem pieces_nil : pieces [] = [] := by
  rw [pieces, if_pos rfl]

theorem pieces_of_ne_nil {input : List UInt8} (h : input ≠ []) :
    pieces input = piece input :: pieces (input.drop (piece input).length) := by
  rw [pieces, if_neg h]

/-- The string in a buffer that holds a piece. -/
theorem bytes_cstr_piece (p rest : List UInt8) :
    (cstr (p ++ 0 :: rest)).bytes = (cstr p).bytes := by
  show (p ++ 0 :: rest).takeWhile _ = p.takeWhile _
  rw [List.takeWhile_append]
  split
  · rename_i hall
    have hwhole := (List.takeWhile_prefix (p := (· ≠ 0)) (l := p)).eq_of_length hall
    rw [List.takeWhile_cons_of_neg (by simp), List.append_nil, hwhole]
  · rfl

/-- **A call of `fgets`** before the end of the output. -/
theorem fgets_of_ne_nil {buf : Block} {input : List UInt8} (hbuf : buf.length = 128)
    (h : input ≠ []) :
    ∃ buf', fgets buf 128 input = some (buf', input.drop (piece input).length) ∧
      buf'.length = 128 ∧ (cstr buf').bytes = (cstr (piece input)).bytes := by
  have hlen := length_piece_le input
  have hstore : store buf 0 (piece input ++ [0]) =
      some (overwrite buf 0 (piece input ++ [0])) := by
    apply store_of_le
    rw [List.length_append, List.length_singleton]
    omega
  refine ⟨overwrite buf 0 (piece input ++ [0]), ?_, ?_, ?_⟩
  · rw [fgets, if_neg h]
    show (store buf 0 (piece input ++ [0])).bind _ = _
    rw [hstore]
    rfl
  · rw [length_overwrite, hbuf]
    rw [List.length_append, List.length_singleton]
    omega
  · rw [overwrite, List.take_zero, List.nil_append, List.append_assoc, List.singleton_append]
    exact bytes_cstr_piece _ _

/-! ## The id -/

/-- The characters of a string that the id is made of. -/
def idChars (s : List UInt8) : List UInt8 := (s.take 64).filter kept

theorem length_idChars_le (s : List UInt8) : (idChars s).length ≤ 64 := by
  have hfilter := List.length_filter_le kept (s.take 64)
  rw [List.length_take] at hfilter
  exact hfilter.trans (Nat.min_le_left _ _)

/-- **The copy** is one store of the characters that are kept. -/
theorem copyChars_eq (buf2 : Block) (tmpi : Nat) (cs : List UInt8) :
    copyChars buf2 tmpi cs =
      (store buf2 tmpi (cs.filter kept)).map (tmpi + (cs.filter kept).length, ·) := by
  induction cs generalizing buf2 tmpi with
  | nil => rfl
  | cons c cs ih =>
    by_cases hc : kept c = true
    · rw [copyChars, if_pos hc, List.filter_cons_of_pos hc, store, List.length_cons,
        Option.map_bind]
      refine Option.bind_congr fun buf2' _ => ?_
      rw [ih, Nat.add_right_comm, Nat.add_assoc]
      rfl
    · rw [copyChars, if_neg hc, List.filter_cons_of_neg hc, ih]

section

variable {fromhex : List UInt8 → List UInt8}
  (hhex : ∀ s, (fromhex s).length = s.length / 2)
  {conf : PcConf} (hroom : conf.mcuUniqueId.length = 64)

include hhex hroom

/-- **The id is stored**, whatever the string is. -/
theorem takeId_eq (s : List UInt8) :
    ∃ conf', takeId fromhex conf s = some conf' ∧
      conf'.mcuUniqueIdLen = (idChars s).length / 2 := by
  have hchars := length_idChars_le s
  have hcopy : copyChars (List.replicate 128 0) 0 (s.take 64) =
      some ((idChars s).length,
        idChars s ++ List.replicate (128 - (idChars s).length) 0) := by
    have hfits : (idChars s).length ≤ 128 := by omega
    rw [copyChars_eq, ← idChars, store_zeros hfits, Nat.zero_add]
    rfl
  have hid : (fromhex (idChars s)).length ≤ 32 := by
    rw [hhex]
    omega
  have hfits : 0 + (fromhex (idChars s)).length ≤ conf.mcuUniqueId.length := by omega
  have hlen := length_overwrite hfits
  have hpoke : poke (overwrite conf.mcuUniqueId 0 (fromhex (idChars s)))
        ((idChars s).length / 2) 0 =
      some ((overwrite conf.mcuUniqueId 0 (fromhex (idChars s))).set
        ((idChars s).length / 2) 0) :=
    if_pos (by omega)
  refine ⟨⟨(idChars s).length / 2, (overwrite conf.mcuUniqueId 0 (fromhex (idChars s))).set
    ((idChars s).length / 2) 0⟩, ?_, rfl⟩
  rw [takeId, hcopy]
  simp only [Option.bind_eq_bind, Option.bind_some, List.take_left, store_of_le hfits, hpoke,
    Option.pure_def]

/-! ## The loop -/

/-- The string of a piece has no `UUID` in it. -/
def isId (p : List UInt8) : Bool := !decide (HasUuid (cstr p).bytes)

omit hhex hroom in
/-- A round that finds `UUID`. -/
theorem readLoop_skip {buf buf' : Block} {input rest : List UInt8}
    (hget : fgets buf 128 input = some (buf', rest)) (huuid : HasUuid (cstr buf').bytes) (n : Nat) :
    readLoop fromhex conf (n + 1) buf input = readLoop fromhex conf n buf' rest := by
  rw [readLoop, hget]
  exact if_pos huuid

/-- A round that does not. -/
theorem readLoop_take {buf buf' : Block} {input rest : List UInt8}
    (hget : fgets buf 128 input = some (buf', rest)) (hno : ¬ HasUuid (cstr buf').bytes) :
    ∃ conf', conf'.mcuUniqueIdLen = (idChars (cstr buf').bytes).length / 2 ∧
      ∀ n, readLoop fromhex conf n buf input =
        if n < 1 then .error .running else .ok conf' := by
  obtain ⟨conf', htake, hlen⟩ := takeId_eq hhex hroom (cstr buf').bytes
  refine ⟨conf', hlen, ?_⟩
  intro n
  cases n with
  | zero => rfl
  | succ n =>
    rw [readLoop, hget]
    simp only [hno, if_false, htake, Nat.lt_one_iff, Nat.add_eq_zero_iff, Nat.one_ne_zero,
      and_false]

/-- **The loop ends** at the first piece without `UUID`. -/
theorem readLoop_of_find {buf : Block} (hbuf : buf.length = 128) {input p : List UInt8}
    (hfind : (pieces input).find? isId = some p) :
    ∃ rounds conf', conf'.mcuUniqueIdLen = (idChars (cstr p).bytes).length / 2 ∧
      ∀ n, readLoop fromhex conf n buf input =
        if n < rounds then .error .running else .ok conf' := by
  induction input using pieces.induct generalizing buf with
  | case1 =>
    rw [pieces_nil] at hfind
    cases hfind
  | case2 input hinput ih =>
    obtain ⟨buf', hget, hbuf', hstring⟩ := fgets_of_ne_nil hbuf hinput
    rw [pieces_of_ne_nil hinput, List.find?_cons] at hfind
    by_cases huuid : HasUuid (cstr (piece input)).bytes
    · -- the loop goes on with the rest of the output
      have hskip : isId (piece input) = false := by simp [isId, huuid]
      rw [hskip] at hfind
      obtain ⟨rounds, conf', hlen, hloop⟩ := ih hbuf' hfind
      refine ⟨rounds + 1, conf', hlen, ?_⟩
      intro n
      cases n with
      | zero => rfl
      | succ n =>
        rw [readLoop_skip hget (hstring ▸ huuid), hloop]
        simp only [Nat.add_lt_add_iff_right]
    · have hid : isId (piece input) = true := by simp [isId, huuid]
      rw [hid] at hfind
      cases hfind
      rw [← hstring] at huuid ⊢
      exact ⟨1, readLoop_take hhex hroom hget huuid⟩

omit hhex hroom in
/-- **The loop does not end** if every piece has `UUID` in it: at the end of the output, the last
one is looked at again and again. -/
theorem readLoop_endless {buf : Block} (hbuf : buf.length = 128) {input : List UInt8}
    (hlast : input = [] → HasUuid (cstr buf).bytes) (hall : ∀ p ∈ pieces input, isId p = false)
    (n : Nat) : readLoop fromhex conf n buf input = .error .running := by
  induction n generalizing buf input with
  | zero => rfl
  | succ n ih =>
    by_cases hinput : input = []
    · subst hinput
      rw [readLoop_skip (if_pos rfl) (hlast rfl)]
      exact ih hbuf hlast hall
    · obtain ⟨buf', hget, hbuf', hstring⟩ := fgets_of_ne_nil hbuf hinput
      rw [pieces_of_ne_nil hinput] at hall
      have huuid : HasUuid (cstr buf').bytes := by
        rw [hstring]
        simpa [isId] using hall _ List.mem_cons_self
      rw [readLoop_skip hget huuid]
      exact ih hbuf' (fun _ => huuid) fun p hp => hall p (List.mem_cons_of_mem _ hp)

/-- Without any output, the buffer is empty, and so is the id. -/
theorem readLoop_nil :
    ∃ conf', conf'.mcuUniqueIdLen = 0 ∧
      ∀ n, readLoop fromhex conf n (List.replicate 128 0) [] =
        if n < 1 then .error .running else .ok conf' := by
  have hstring : (cstr (List.replicate 128 0)).bytes = [] := by decide
  have hno : ¬ HasUuid (cstr (List.replicate 128 0)).bytes := by decide
  obtain ⟨conf', hlen, hloop⟩ := readLoop_take hhex hroom (if_pos rfl) hno
  rw [hstring] at hlen
  exact ⟨conf', hlen, hloop⟩

/-- The first piece that is read and has no `UUID` in it; without any output, nothing. -/
def idPiece (output : List UInt8) : List UInt8 := ((pieces output).find? isId).getD []

omit hhex hroom in
theorem find_isId_eq_none_iff (output : List UInt8) :
    (pieces output).find? isId = none ↔ ¬ ∃ p ∈ pieces output, ¬ HasUuid (cstr p).bytes := by
  simp [isId]

/-- The loop as a whole, where it ends. -/
theorem readLoop_ends {output : List UInt8}
    (h : output = [] ∨ ∃ p ∈ pieces output, ¬ HasUuid (cstr p).bytes) :
    ∃ rounds conf', conf'.mcuUniqueIdLen = (idChars (cstr (idPiece output)).bytes).length / 2 ∧
      ∀ n, readLoop fromhex conf n (List.replicate 128 0) output =
        if n < rounds then .error .running else .ok conf' := by
  obtain rfl | hpiece := h
  · have hnone : idPiece [] = [] := by rw [idPiece, pieces_nil]; rfl
    obtain ⟨conf', hlen, hloop⟩ := readLoop_nil hhex hroom
    exact ⟨1, conf', by rw [hlen, hnone]; rfl, hloop⟩
  · have hfind : (pieces output).find? isId ≠ none :=
      fun hnone => (find_isId_eq_none_iff output).1 hnone hpiece
    obtain ⟨p, hp⟩ := Option.ne_none_iff_exists'.1 hfind
    have hid : idPiece output = p := by rw [idPiece, hp]; rfl
    rw [hid]
    exact readLoop_of_find hhex hroom List.length_replicate hp

/-- **When the id is found.**  The loop ends if and only if there is no output, or something is
read that has no `UUID` in it.  The length of the id is then half the number of the characters
that count among the first 64 of what was read first; and no store is outside of its array. -/
theorem mcu_id_ends_iff (hnew : conf.mcuUniqueIdLen = 0) (output : List UInt8) :
    ((∃ fuel conf', luatMcuUniqueId fromhex fuel output conf = .ok conf') ↔
        output = [] ∨ ∃ p ∈ pieces output, ¬ HasUuid (cstr p).bytes) ∧
      (∀ fuel conf', luatMcuUniqueId fromhex fuel output conf = .ok conf' →
        conf'.mcuUniqueIdLen ≤ 32 ∧
        conf'.mcuUniqueIdLen = (idChars (cstr (idPiece output)).bytes).length / 2) ∧
      ∀ fuel, luatMcuUniqueId fromhex fuel output conf ≠ .error .outside := by
  have hloop : ∀ fuel, luatMcuUniqueId fromhex fuel output conf =
      readLoop fromhex conf fuel (List.replicate 128 0) output :=
    fun fuel => if_neg (not_not.2 hnew)
  simp only [hloop]
  by_cases hends : output = [] ∨ ∃ p ∈ pieces output, ¬ HasUuid (cstr p).bytes
  · obtain ⟨rounds, conf₁, hlen, hrounds⟩ := readLoop_ends hhex hroom hends
    have hchars := length_idChars_le (cstr (idPiece output)).bytes
    refine ⟨iff_of_true ⟨rounds, conf₁, ?_⟩ hends, ?_, ?_⟩
    · rw [hrounds, if_neg (lt_irrefl rounds)]
    · intro fuel conf' hok
      rw [hrounds] at hok
      split at hok
      · cases hok
      · cases hok
        exact ⟨by omega, hlen⟩
    · intro fuel houtside
      rw [hrounds] at houtside
      split at houtside <;> cases houtside
  · obtain ⟨hsome, hall⟩ := not_or.1 hends
    have hids : ∀ p ∈ pieces output, isId p = false := by
      simpa [isId] using hall
    have hendless : ∀ fuel, readLoop fromhex conf fuel (List.replicate 128 0) output =
        .error .running :=
      readLoop_endless List.length_replicate (fun h => absurd h hsome) hids
    simp only [hendless]
    refine ⟨iff_of_false ?_ hends, ?_, ?_⟩
    · rintro ⟨fuel, conf', hok⟩
      cases hok
    · intro fuel conf' hok
      cases hok
    · intro fuel houtside
      cases houtside

end

/-- The board's id, behind the line with the name of the column. -/
theorem mcu_id_ends_header_and_id :
    ∃ fuel conf', luatMcuUniqueId (fun s => s.take (s.length / 2)) fuel
      (ascii "UUID\n12-34") ⟨0, List.replicate 64 0⟩ = .ok conf' := by
  have hends := @mcu_id_ends_iff (fun s => s.take (s.length / 2))
    (fun s => by rw [List.length_take]; omega) ⟨0, List.replicate 64 0⟩ List.length_replicate rfl
    (ascii "UUID\n12-34")
  refine hends.1.2 (.inr ⟨ascii "12-34", ?_, by decide⟩)
  rw [pieces_of_ne_nil (by decide), pieces_of_ne_nil (by decide)]
  decide

/-- The line with the name of the column only: the loop does not end. -/
theorem mcu_id_endless :
    pieces (ascii "UUID\n") = [ascii "UUID\n"] ∧
      ∀ fuel, luatMcuUniqueId (fun s => s.take (s.length / 2)) fuel (ascii "UUID\n")
        ⟨0, List.replicate 64 0⟩ = .error .running := by
  have hpieces : pieces (ascii "UUID\n") = [ascii "UUID\n"] := by
    have hrest : (ascii "UUID\n").drop (piece (ascii "UUID\n")).length = [] := by decide
    rw [pieces_of_ne_nil (by decide), hrest, pieces_nil]
    rfl
  refine ⟨hpieces, fun fuel => ?_⟩
  apply readLoop_endless List.length_replicate (fun h => absurd h (by decide))
  rw [hpieces]
  decide

end LuatosPc.Driver.Mcu
