import LuatosPc.Luadb.Format

/-!
# Building a luadb image

The model of `luat_luadb2.c`: the context, the block of memory the image grows
in, and the two functions that start an image and add a file to it.

* `Ctx` — `luat_luadb2_ctx_t`.
* `luatLuadb2Init`, `luatLuadb2Write` — the two functions, store by store.  The
  answer of the heap is an argument: `none` for `NULL`, otherwise the bytes that
  happen to stand in the new memory.  A store outside the block has no result.
* `write_ok_iff` — what a successful write does, and when there is one.
* `Ctx.Holds` — the invariant: the bytes of the image are exactly a header and
  the records of the files written so far.
* `build_holds`, `build_of_fits` — every sequence of successful writes keeps it,
  and files whose names fit the format are all written.
* `luadb_round_trip`, `count_agrees_iff` — the image reads back as the list of
  files, and how far the count in its header can be trusted.
* `name_stored_iff` — how long a name may be.
-/

namespace LuatosPc.Luadb

open LuatosPc.Bytes

/-- `luat_luadb2_ctx_t`: the image under construction. -/
structure Ctx where
  /-- The block that holds the image; `NULL` before the first use. -/
  dataptr : Option Block
  /-- The length of the image. -/
  offset : Nat
  /-- The size of the first allocation. -/
  size : Nat

/-- What `luat_heap_malloc` or `luat_heap_realloc` answers: `NULL`, or memory with
these bytes in its new part. -/
abbrev Heap := Option (Nat → UInt8)

/-- `luat_luadb2_init`. -/
def luatLuadb2Init (ctx : Ctx) (heap : Heap) : Option (Ctx × Int) :=
  match ctx.dataptr, heap with
  | some _, _ => some (ctx, 0)
  -- the answer is not checked: the first store goes through NULL
  | none, none => none
  | none, some junk => do
    let tmp := alloc 1024 junk
    let offset := 0
    let tmp ← store tmp offset [0x01, 0x04, 0x5A, 0xA5, 0x5A, 0xA5]
    let offset := offset + 6
    let tmp ← store tmp offset [0x02, 0x02, 0x02, 0x00]
    let offset := offset + 4
    let tmp ← store tmp offset [0x03, 0x04, 0x00, 0x00, 0x00, 0x18]
    let offset := offset + 6
    let tmp ← store tmp offset [0x04, 0x02, 0x00, 0x00]
    let offset := offset + 4
    let tmp ← store tmp offset [0xFE, 0x02, 0x00, 0x00]
    let offset := offset + 4
    return ({ ctx with dataptr := some tmp, size := 1024, offset := offset }, 0)

/-- `ctx->dataptr[0x12]++`. -/
def bumpCount (tmp : Block) : Option Block :=
  poke tmp 0x12 (tmp.getD 0x12 0 + 1)

/-- `luat_luadb2_write`.  The image and the contents are in memory together, so
`offset + len + 512` stays within a `size_t`. -/
def luatLuadb2Write (ctx : Ctx) (name : CString) (data : List UInt8) (heap : Heap) :
    Option (Ctx × Int) :=
  match ctx.dataptr, heap with
  | none, _ => some (ctx, -1)
  | some _, none => some (ctx, -2)
  | some dataptr, some junk => do
    let len := data.length
    let offset := ctx.offset
    let tmp := realloc dataptr (offset + len + 512) junk
    let tmp ← store tmp offset [0x01, 0x04, 0x5A, 0xA5, 0x5A, 0xA5]
    let offset := offset + 6
    let tmp ← store tmp offset [0x02, UInt8.ofNat (strlen name &&& 0xFF)]
    let tmp ← store tmp (offset + 2) name.bytes
    let offset := offset + (2 + strlen name)
    let tmp ← store tmp offset [0x03, 0x04, UInt8.ofNat (len >>> 0 &&& 0xFF),
      UInt8.ofNat (len >>> 8 &&& 0xFF), UInt8.ofNat (len >>> 16 &&& 0xFF),
      UInt8.ofNat (len >>> 24 &&& 0xFF)]
    let offset := offset + 6
    let tmp ← store tmp offset [0xFE, 0x02, 0x00, 0x00]
    let offset := offset + 4
    let tmp ← store tmp offset data
    let offset := offset + len
    let tmp ← bumpCount tmp
    return ({ ctx with offset := offset, dataptr := some tmp }, 0)

/-! ## What one call does -/

theorem luatLuadb2Init_eq {ctx : Ctx} (h : ctx.dataptr = none) (junk : Nat → UInt8) :
    luatLuadb2Init ctx (some junk) = some
      ({ dataptr := some (overwrite (alloc 1024 junk) 0 (header 0)), offset := 24, size := 1024 },
        0) := by
  have hlen : 0 + (header 0).length ≤ (alloc 1024 junk).length := by
    rw [length_header, length_alloc]
    decide
  unfold luatLuadb2Init
  simp only [h, Option.bind_eq_bind, Option.pure_def]
  rw [store_bind_store (by simp), store_bind_store (by simp), store_bind_store (by simp),
    store_bind_store (by simp)]
  exact congrArg (Option.bind · _) (store_of_le hlen)

/-- Without memory for a new image the process crashes. -/
theorem luatLuadb2Init_null {ctx : Ctx} (h : ctx.dataptr = none) :
    luatLuadb2Init ctx none = none := by
  obtain ⟨dataptr, offset, size⟩ := ctx
  cases h
  rfl

/-- The low byte of a number. -/
theorem ofNat_and_255 (x : Nat) : UInt8.ofNat (x &&& 0xFF) = UInt8.ofNat x := by
  apply UInt8.toNat_inj.1
  rw [UInt8.toNat_ofNat', UInt8.toNat_ofNat', show (0xFF : Nat) = 2 ^ 8 - 1 from rfl,
    Nat.and_two_pow_sub_one_eq_mod, Nat.mod_mod]

/-- The file that a call of `luat_luadb2_write` adds. -/
def fileOf (name : CString) (data : List UInt8) : File :=
  ⟨name.bytes, data⟩

/-- All the stores of `luat_luadb2_write` are one store of a record. -/
theorem luatLuadb2Write_eq {ctx : Ctx} {dataptr : Block} (h : ctx.dataptr = some dataptr)
    (name : CString) (data : List UInt8) (junk : Nat → UInt8) :
    luatLuadb2Write ctx name data (some junk) =
      (store (realloc dataptr (ctx.offset + data.length + 512) junk) ctx.offset
        (record (fileOf name data))).bind fun tmp => (bumpCount tmp).bind fun tmp =>
          some ({ ctx with offset := ctx.offset + (record (fileOf name data)).length,
                           dataptr := some tmp }, 0) := by
  have hbytes : ([0x01, 0x04, 0x5A, 0xA5, 0x5A, 0xA5] : List UInt8) ++
      [0x02, UInt8.ofNat (name.bytes.length &&& 0xFF)] ++ name.bytes ++
      [0x03, 0x04, UInt8.ofNat (data.length >>> 0 &&& 0xFF),
        UInt8.ofNat (data.length >>> 8 &&& 0xFF), UInt8.ofNat (data.length >>> 16 &&& 0xFF),
        UInt8.ofNat (data.length >>> 24 &&& 0xFF)] ++ [0xFE, 0x02, 0x00, 0x00] ++ data =
      record (fileOf name data) := by
    simp only [ofNat_and_255, record, fileOf, magic, crc, leBytes, ← Nat.shiftRight_add,
      List.append_assoc, List.cons_append, List.nil_append, Nat.shiftRight_zero]
  simp only [luatLuadb2Write, h, Option.bind_eq_bind, Option.pure_def, strlen]
  rw [store_bind_store (by simp), store_bind_store (by simp), store_bind_store (by simp; omega),
    store_bind_store (by simp; omega), store_bind_store (by simp; omega), hbytes, length_record]
  have hoffset : ctx.offset + 6 + (2 + name.bytes.length) + 6 + 4 + data.length =
      ctx.offset + (18 + (fileOf name data).name.length + (fileOf name data).data.length) := by
    simp only [fileOf]
    omega
  rw [hoffset]

/-- The block after a successful write. -/
def written (ctx : Ctx) (dataptr : Block) (f : File) (junk : Nat → UInt8) : Block :=
  let tmp := overwrite (realloc dataptr (ctx.offset + f.data.length + 512) junk) ctx.offset (record f)
  tmp.set 0x12 (tmp.getD 0x12 0 + 1)

/-- **What a write does.**  It succeeds when there is an image, the heap gives
memory and the record stays inside the 512 bytes asked for on top of the
contents; it then replaces the bytes from `offset` on by the record and counts
one file more. -/
theorem write_ok_iff {ctx ctx' : Ctx} {name : CString} {data : List UInt8} {heap : Heap} :
    luatLuadb2Write ctx name data heap = some (ctx', 0) ↔
      ∃ dataptr junk, ctx.dataptr = some dataptr ∧ heap = some junk ∧ strlen name ≤ 494 ∧
        ctx' = { ctx with
          dataptr := some (written ctx dataptr (fileOf name data) junk)
          offset := ctx.offset + (record (fileOf name data)).length } := by
  cases hptr : ctx.dataptr with
  | none => simp [luatLuadb2Write, hptr]
  | some dataptr =>
    cases heap with
    | none => simp [luatLuadb2Write, hptr]
    | some junk =>
      have hne : record (fileOf name data) ≠ [] := by simp [record, magic]
      rw [luatLuadb2Write_eq hptr]
      by_cases hname : strlen name ≤ 494
      · have hfits : ctx.offset + (record (fileOf name data)).length ≤
            (realloc dataptr (ctx.offset + data.length + 512) junk).length := by
          simp only [length_record, length_realloc, fileOf]
          unfold strlen at hname
          omega
        have hcount : 0x12 < (overwrite (realloc dataptr (ctx.offset + data.length + 512) junk)
            ctx.offset (record (fileOf name data))).length := by
          rw [length_overwrite hfits, length_realloc]
          omega
        rw [store_of_le hfits, Option.bind_some, bumpCount, poke, if_pos hcount, Option.bind_some]
        simp [hname, written, fileOf, eq_comm]
      · rw [store_of_lt hne]
        · simp [hname]
        · simp only [length_record, length_realloc, fileOf]
          unfold strlen at hname
          omega

/-- A write that reports an error has changed nothing. -/
theorem write_ret_eq_zero_or {ctx ctx' : Ctx} {name : CString} {data : List UInt8} {heap : Heap}
    {ret : Int} (h : luatLuadb2Write ctx name data heap = some (ctx', ret)) :
    ret = 0 ∨ ctx' = ctx := by
  cases hptr : ctx.dataptr with
  | none =>
    simp only [luatLuadb2Write, hptr] at h
    cases h
    exact .inr rfl
  | some dataptr =>
    cases heap with
    | none =>
      simp only [luatLuadb2Write, hptr] at h
      cases h
      exact .inr rfl
    | some junk =>
      rw [luatLuadb2Write_eq hptr] at h
      obtain ⟨tmp, -, h⟩ := Option.bind_eq_some_iff.1 h
      obtain ⟨tmp', -, h⟩ := Option.bind_eq_some_iff.1 h
      cases h
      exact .inl rfl

/-! ## Whole images -/

/-- One call of `luat_luadb2_write` for which the heap gives memory. -/
structure Write where
  /-- The name of the file. -/
  name : CString
  /-- Its contents. -/
  data : List UInt8
  /-- What stands in the new memory. -/
  junk : Nat → UInt8

/-- The file that is written. -/
def Write.file (w : Write) : File := fileOf w.name w.data

/-- Write one file after the other; `none` as soon as a write fails. -/
def writeAll (ctx : Ctx) : List Write → Option Ctx
  | [] => some ctx
  | w :: ws =>
    match luatLuadb2Write ctx w.name w.data (some w.junk) with
    | none => none
    | some (ctx', ret) => if ret = 0 then writeAll ctx' ws else none

/-- Start an image and write files to it. -/
def build (ctx : Ctx) (junk : Nat → UInt8) (ws : List Write) : Option Ctx :=
  match luatLuadb2Init ctx (some junk) with
  | none => none
  | some (ctx', _) => writeAll ctx' ws

theorem writeAll_cons_eq_some {ctx ctx' : Ctx} {w : Write} {ws : List Write} :
    writeAll ctx (w :: ws) = some ctx' ↔
      ∃ ctx₁, luatLuadb2Write ctx w.name w.data (some w.junk) = some (ctx₁, 0) ∧
        writeAll ctx₁ ws = some ctx' := by
  rw [writeAll]
  split
  · simp_all
  · rename_i ctx₁ ret hw
    simp only [hw, Option.some.injEq, Prod.mk.injEq]
    by_cases hret : ret = 0
    · simp [hret]
    · simp [hret]

/-- The image is a header and the records of the files `fs`. -/
def Ctx.Holds (ctx : Ctx) (fs : List File) : Prop :=
  ∃ b, ctx.dataptr = some b ∧ ctx.offset = 24 + (fs.flatMap record).length ∧
    b.take ctx.offset = header fs.length ++ fs.flatMap record

theorem Ctx.Holds.offset_le {ctx : Ctx} {fs : List File} {b : Block} (h : ctx.Holds fs)
    (hptr : ctx.dataptr = some b) : 24 ≤ ctx.offset ∧ ctx.offset ≤ b.length := by
  obtain ⟨b', hptr', hoff, htake⟩ := h
  obtain rfl : b' = b := by simpa [hptr'] using hptr
  have hlen := congrArg List.length htake
  rw [List.length_take, List.length_append, length_header] at hlen
  omega

theorem take_written {ctx : Ctx} {b : Block} {n : Nat} {rs : List UInt8}
    (hoff : ctx.offset = 24 + rs.length) (hb : b.take ctx.offset = header n ++ rs) (f : File)
    (junk : Nat → UInt8) :
    (written ctx b f junk).take (ctx.offset + (record f).length) =
      header (n + 1) ++ (rs ++ record f) := by
  have hlen : ctx.offset ≤ b.length := by
    have := congrArg List.length hb
    rw [List.length_take, List.length_append, length_header] at this
    omega
  have htmp : (overwrite (realloc b (ctx.offset + f.data.length + 512) junk) ctx.offset
      (record f)).take (ctx.offset + (record f).length) = header n ++ (rs ++ record f) := by
    rw [take_overwrite_add (by rw [length_realloc]; omega), take_realloc junk (by omega) hlen, hb,
      List.append_assoc]
  have hcount : (overwrite (realloc b (ctx.offset + f.data.length + 512) junk) ctx.offset
      (record f)).getD 0x12 0 = UInt8.ofNat n := by
    rw [List.getD_eq_getElem?_getD, ← List.getElem?_take_of_lt (show 0x12 < ctx.offset +
      (record f).length by omega), htmp]
    rfl
  rw [written, hcount, List.take_set, htmp, header_succ]

/-- A write adds the record of its file. -/
theorem Ctx.Holds.write {ctx ctx' : Ctx} {fs : List File} {name : CString} {data : List UInt8}
    {heap : Heap} (h : ctx.Holds fs)
    (hw : luatLuadb2Write ctx name data heap = some (ctx', 0)) :
    ctx'.Holds (fs ++ [fileOf name data]) := by
  obtain ⟨b, junk, hptr, rfl, -, rfl⟩ := write_ok_iff.1 hw
  obtain ⟨b', hptr', hoff, hb⟩ := h
  obtain rfl : b' = b := by simpa [hptr'] using hptr
  have hrecords : (fs ++ [fileOf name data]).flatMap record =
      fs.flatMap record ++ record (fileOf name data) := by simp
  refine ⟨_, rfl, ?_, ?_⟩
  · rw [hrecords, List.length_append, hoff, Nat.add_assoc]
  · rw [hrecords, List.length_append, List.length_singleton]
    exact take_written hoff hb _ junk

/-- A write changes no byte before its record but the count. -/
theorem Ctx.Holds.write_frame {ctx ctx' : Ctx} {fs : List File} {name : CString}
    {data : List UInt8} {heap : Heap} {b b' : Block} (h : ctx.Holds fs)
    (hw : luatLuadb2Write ctx name data heap = some (ctx', 0)) (hb : ctx.dataptr = some b)
    (hb' : ctx'.dataptr = some b') {i : Nat} (hi : i < ctx.offset) (hcount : i ≠ 0x12) :
    b'[i]? = b[i]? := by
  have hlen := (h.offset_le hb).2
  obtain ⟨b₁, junk, hptr, rfl, -, rfl⟩ := write_ok_iff.1 hw
  obtain rfl : b₁ = b := by simpa [hptr] using hb
  obtain rfl : written ctx b₁ (fileOf name data) junk = b' := by simpa using hb'
  have htake : (overwrite (realloc b₁ (ctx.offset + (fileOf name data).data.length + 512) junk)
      ctx.offset (record (fileOf name data))).take ctx.offset = b₁.take ctx.offset := by
    rw [take_overwrite (by rw [length_realloc]; omega), take_realloc junk (by omega) hlen]
  rw [written, List.getElem?_set_ne hcount.symm, ← List.getElem?_take_of_lt hi, htake,
    List.getElem?_take_of_lt hi]

theorem Ctx.Holds.writeAll {ctx ctx' : Ctx} {fs : List File} {ws : List Write}
    (h : ctx.Holds fs) (hws : Luadb.writeAll ctx ws = some ctx') :
    ctx'.Holds (fs ++ ws.map Write.file) := by
  induction ws generalizing ctx fs with
  | nil =>
    obtain rfl : ctx = ctx' := by simpa [Luadb.writeAll] using hws
    simpa using h
  | cons w ws ih =>
    obtain ⟨ctx₁, hw, hrest⟩ := writeAll_cons_eq_some.1 hws
    have hnext := ih (h.write hw) hrest
    rwa [List.append_assoc, List.singleton_append] at hnext

section

variable {ctx₀ ctx : Ctx} {junk : Nat → UInt8} {ws : List Write}

/-- A new image has no files. -/
theorem init_holds (junk : Nat → UInt8) (hnull : ctx₀.dataptr = none) :
    ∃ ctx, luatLuadb2Init ctx₀ (some junk) = some (ctx, 0) ∧ ctx.Holds [] := by
  refine ⟨_, luatLuadb2Init_eq hnull junk, _, rfl, rfl, ?_⟩
  show (overwrite (alloc 1024 junk) 0 (header 0)).take (0 + (header 0).length) = _
  rw [take_overwrite_add (Nat.zero_le _)]
  rfl

theorem build_eq (junk : Nat → UInt8) (hnull : ctx₀.dataptr = none) :
    ∃ ctx, ctx.Holds [] ∧ ∀ ws, build ctx₀ junk ws = writeAll ctx ws := by
  obtain ⟨ctx, hinit, hholds⟩ := init_holds junk hnull
  exact ⟨ctx, hholds, fun ws => by rw [build, hinit]⟩

/-- **The image after any sequence of successful writes** is a header and the
records of the files written, in order. -/
theorem build_holds (hnull : ctx₀.dataptr = none) (h : build ctx₀ junk ws = some ctx) :
    ctx.Holds (ws.map Write.file) := by
  obtain ⟨ctx₁, hstart, hbuild⟩ := build_eq junk hnull
  rw [hbuild] at h
  simpa using hstart.writeAll h

theorem writeAll_of_fits (hname : ∀ w ∈ ws, strlen w.name ≤ 494) {fs : List File}
    (h : ctx.Holds fs) : ∃ ctx', writeAll ctx ws = some ctx' := by
  induction ws generalizing ctx fs with
  | nil => exact ⟨ctx, rfl⟩
  | cons w ws ih =>
    obtain ⟨b, hptr, -⟩ := id h
    have hw : luatLuadb2Write ctx w.name w.data (some w.junk) = some (_, 0) :=
      write_ok_iff.2 ⟨b, w.junk, hptr, rfl, hname w List.mem_cons_self, rfl⟩
    obtain ⟨ctx', hrest⟩ := ih (fun v hv => hname v (List.mem_cons_of_mem w hv)) (h.write hw)
    exact ⟨ctx', writeAll_cons_eq_some.2 ⟨_, hw, hrest⟩⟩

/-- Files with names of at most 494 bytes are all written. -/
theorem build_of_fits (junk : Nat → UInt8) (hnull : ctx₀.dataptr = none)
    (hname : ∀ w ∈ ws, strlen w.name ≤ 494) :
    ∃ ctx, build ctx₀ junk ws = some ctx := by
  obtain ⟨ctx₁, hstart, hbuild⟩ := build_eq junk hnull
  rw [hbuild]
  exact writeAll_of_fits hname hstart

end

/-! ## The image reads back -/

/-- **Round trip.**  Files whose names and contents fit the format are all
written; the image reads back as exactly these files, in order, and ends where
the context says; and each write leaves the bytes before its record as they
were, the file count apart. -/
theorem luadb_round_trip (ctx₀ : Ctx) (junk : Nat → UInt8) (ws : List Write)
    (hnull : ctx₀.dataptr = none) (hname : ∀ w ∈ ws, strlen w.name ≤ 255)
    (hdata : ∀ w ∈ ws, w.data.length < 2 ^ 32) :
    (∃ ctx b, build ctx₀ junk ws = some ctx ∧ ctx.dataptr = some b ∧ ctx.offset ≤ b.length ∧
      decodeRecords ((b.take ctx.offset).drop 24) = some (ws.map Write.file)) ∧
    ∀ pre w post, ws = pre ++ w :: post → ∃ ctx b ctx' b', build ctx₀ junk pre = some ctx ∧
      ctx.dataptr = some b ∧
      luatLuadb2Write ctx w.name w.data (some w.junk) = some (ctx', 0) ∧
      ctx'.dataptr = some b' ∧
      ∀ i < ctx.offset, i ≠ 0x12 → i ≠ 0x13 → b'[i]? = b[i]? := by
  have hslack : ∀ w ∈ ws, strlen w.name ≤ 494 := fun w hw => (hname w hw).trans (by decide)
  refine ⟨?_, ?_⟩
  · obtain ⟨ctx, hbuild⟩ := build_of_fits junk hnull hslack
    have hholds := build_holds hnull hbuild
    obtain ⟨b, hptr, -, hb⟩ := id hholds
    have hfits : ∀ f ∈ ws.map Write.file, f.Fits := by
      intro f hf
      obtain ⟨w, hw, rfl⟩ := List.mem_map.1 hf
      exact ⟨Nat.lt_succ_of_le (hname w hw), hdata w hw⟩
    refine ⟨ctx, b, hbuild, hptr, (hholds.offset_le hptr).2, ?_⟩
    rw [hb, List.drop_left' (length_header _)]
    exact decodeRecords_flatMap hfits
  · rintro pre w post rfl
    have hslackPre : ∀ v ∈ pre, strlen v.name ≤ 494 :=
      fun v hv => hslack v (List.mem_append_left _ hv)
    obtain ⟨ctx, hbuild⟩ := build_of_fits junk hnull hslackPre
    have hholds := build_holds hnull hbuild
    obtain ⟨b, hptr, -⟩ := id hholds
    have hw : luatLuadb2Write ctx w.name w.data (some w.junk) = some (_, 0) :=
      write_ok_iff.2 ⟨b, w.junk, hptr, rfl, hslack w (by simp), rfl⟩
    refine ⟨ctx, b, _, _, hbuild, hptr, hw, rfl, ?_⟩
    intro i hi hlow _
    exact hholds.write_frame hw hptr rfl hi hlow

/-- The context of `luat_cmds.c` before its first use. -/
def nullCtx : Ctx := ⟨none, 0, 0⟩

/-- A file called `a` with the contents `01 04`, which begin like a record. -/
def smallWrite : Write := ⟨⟨[0x61], by decide⟩, [0x01, 0x04], fun _ => 0⟩

/-- That file, one of the same name with other contents, and an empty one, each in memory that
holds something else. -/
def threeWrites : List Write :=
  [smallWrite, ⟨⟨[0x61], by decide⟩, [0x00, 0xFF, 0x00], fun _ => 0xAA⟩,
    ⟨⟨[0x62, 0x2E, 0x6C, 0x75, 0x61], by decide⟩, [], fun i => UInt8.ofNat i⟩]

theorem luadb_round_trip_three : ∃ ctx b, build nullCtx (fun _ => 0x55) threeWrites = some ctx ∧
    ctx.dataptr = some b ∧ ctx.offset ≤ b.length ∧
    decodeRecords ((b.take ctx.offset).drop 24) =
      some [⟨[0x61], [0x01, 0x04]⟩, ⟨[0x61], [0x00, 0xFF, 0x00]⟩,
        ⟨[0x62, 0x2E, 0x6C, 0x75, 0x61], []⟩] :=
  (luadb_round_trip nullCtx (fun _ => 0x55) threeWrites rfl (by decide) (by decide)).1

/-! ## The file count -/

/-- The two-byte count field of the header. -/
def fileCount (b : Block) : Nat :=
  leValue [b.getD 0x12 0, b.getD 0x13 0]

/-- Only the low byte of the count is kept. -/
theorem fileCount_build {ctx₀ ctx : Ctx} {junk : Nat → UInt8} {ws : List Write} {b : Block}
    (hnull : ctx₀.dataptr = none) (hbuild : build ctx₀ junk ws = some ctx)
    (hptr : ctx.dataptr = some b) : fileCount b = ws.length % 256 := by
  have hholds := build_holds hnull hbuild
  have hoff := (hholds.offset_le hptr).1
  obtain ⟨b', hptr', -, hb⟩ := id hholds
  obtain rfl : b' = b := by simpa [hptr'] using hptr
  have hbyte (i : Nat) (hi : i < 24) : b'.getD i 0 = (header (ws.map Write.file).length).getD i 0 := by
    rw [List.getD_eq_getElem?_getD, ← List.getElem?_take_of_lt (show i < ctx.offset by omega), hb,
      List.getElem?_append_left (by rwa [length_header]), ← List.getD_eq_getElem?_getD]
  rw [fileCount, hbyte 0x12 (by decide), hbyte 0x13 (by decide), List.length_map]
  show (UInt8.ofNat ws.length).toNat + 256 * (0 + 256 * 0) = _
  simp

/-- **The count of the header** is the number of files as long as there are less
than 256 of them, and not beyond: the high byte is never written. -/
theorem count_agrees_iff {ctx₀ ctx : Ctx} {junk : Nat → UInt8} {ws : List Write} {b : Block}
    (hnull : ctx₀.dataptr = none) (hbuild : build ctx₀ junk ws = some ctx)
    (hptr : ctx.dataptr = some b) : fileCount b = ws.length ↔ ws.length < 256 := by
  rw [fileCount_build hnull hbuild hptr]
  exact Nat.mod_eq_iff_lt (by decide)

theorem count_agrees_iff_three : ∃ ctx b, build nullCtx (fun _ => 0) threeWrites = some ctx ∧
    ctx.dataptr = some b ∧ (fileCount b = 3 ↔ 3 < 256) := by
  have hname : ∀ w ∈ threeWrites, strlen w.name ≤ 494 := by decide
  have hnull : nullCtx.dataptr = none := rfl
  obtain ⟨ctx, hbuild⟩ := build_of_fits (fun _ => 0) hnull hname
  obtain ⟨b, hptr, -⟩ := build_holds hnull hbuild
  exact ⟨ctx, b, hbuild, hptr, count_agrees_iff hnull hbuild hptr⟩

/-- After 256 files the header says that there is none. -/
theorem count_wraps : ∃ ctx b,
    build nullCtx (fun _ => 0) (List.replicate 256 smallWrite) = some ctx ∧
      ctx.dataptr = some b ∧ fileCount b = 0 := by
  have hname : ∀ w ∈ List.replicate 256 smallWrite, strlen w.name ≤ 494 := by
    intro w hw
    rw [List.eq_of_mem_replicate hw]
    decide
  have hnull : nullCtx.dataptr = none := rfl
  obtain ⟨ctx, hbuild⟩ := build_of_fits (fun _ => 0) hnull hname
  obtain ⟨b, hptr, -⟩ := build_holds hnull hbuild
  refine ⟨ctx, b, hbuild, hptr, ?_⟩
  rw [fileCount_build hnull hbuild hptr, List.length_replicate]

/-! ## The name field -/

/-- What a write puts behind the image. -/
theorem Ctx.Holds.record_at {ctx ctx' : Ctx} {fs : List File} {name : CString}
    {data : List UInt8} {heap : Heap} {b : Block} (h : ctx.Holds fs)
    (hw : luatLuadb2Write ctx name data heap = some (ctx', 0)) (hb : ctx'.dataptr = some b) :
    (b.take ctx'.offset).drop ctx.offset = record (fileOf name data) := by
  obtain ⟨b', hptr, -, htake⟩ := h.write hw
  obtain ⟨-, -, hoff, -⟩ := h
  obtain rfl : b' = b := Option.some.inj (hptr.symm.trans hb)
  have hlen : (header (fs ++ [fileOf name data]).length ++ fs.flatMap record).length =
      ctx.offset := by
    rw [List.length_append, length_header, hoff]
  rw [htake, List.flatMap_append, List.flatMap_singleton, ← List.append_assoc,
    List.drop_left' hlen]

/-- The length byte and the name, as a write leaves them. -/
theorem Ctx.Holds.name_field {ctx ctx' : Ctx} {fs : List File} {name : CString}
    {data : List UInt8} {heap : Heap} {b : Block} (h : ctx.Holds fs)
    (hw : luatLuadb2Write ctx name data heap = some (ctx', 0)) (hb : ctx'.dataptr = some b) :
    b.getD (ctx.offset + 7) 0 = UInt8.ofNat (strlen name) ∧
      (b.drop (ctx.offset + 8)).take (strlen name) = name.bytes := by
  have hrecord := h.record_at hw hb
  have hoff : ctx'.offset = ctx.offset + (18 + strlen name + data.length) := by
    obtain ⟨_, _, -, -, -, rfl⟩ := write_ok_iff.1 hw
    simp [fileOf, strlen]
  rw [List.drop_take, hoff, Nat.add_sub_cancel_left] at hrecord
  constructor
  · have hbyte := congrArg (fun l : List UInt8 => l.getD 7 0) hrecord
    simp only [List.getD_eq_getElem?_getD] at hbyte ⊢
    rw [List.getElem?_take_of_lt (by omega), List.getElem?_drop] at hbyte
    rw [hbyte]
    rfl
  · have hname := congrArg (fun l : List UInt8 => (l.drop 8).take (strlen name)) hrecord
    simp only [List.drop_take, List.drop_drop, List.take_take] at hname
    rw [min_eq_left (by omega)] at hname
    rw [hname]
    simp [record, magic, fileOf, strlen]

/-- A write for which the heap gives memory has succeeded, and has stored the name with its
length in front of it. -/
def NameStored (ctx : Ctx) (name : CString) (data : List UInt8) (junk : Nat → UInt8) : Prop :=
  ∃ ctx' b, luatLuadb2Write ctx name data (some junk) = some (ctx', 0) ∧ ctx'.dataptr = some b ∧
    (b.getD (ctx.offset + 7) 0).toNat = strlen name ∧
    (b.drop (ctx.offset + 8)).take (strlen name) = name.bytes

/-- A write for which the heap gives memory stays inside it if and only if the name has at
most 494 bytes. -/
theorem Ctx.Holds.write_isSome_iff {ctx : Ctx} {fs : List File} (h : ctx.Holds fs)
    (name : CString) (data : List UInt8) (junk : Nat → UInt8) :
    (luatLuadb2Write ctx name data (some junk)).isSome = true ↔ strlen name ≤ 494 := by
  obtain ⟨b, hptr, -⟩ := h
  constructor
  · intro hsome
    obtain ⟨⟨ctx', ret⟩, hw⟩ := Option.isSome_iff_exists.1 hsome
    obtain rfl : ret = 0 := by
      rw [luatLuadb2Write_eq hptr] at hw
      obtain ⟨_, -, hw⟩ := Option.bind_eq_some_iff.1 hw
      obtain ⟨_, -, hw⟩ := Option.bind_eq_some_iff.1 hw
      cases hw
      rfl
    obtain ⟨_, _, -, -, hname, -⟩ := write_ok_iff.1 hw
    exact hname
  · intro hname
    rw [write_ok_iff.2 ⟨b, junk, hptr, rfl, hname, rfl⟩]
    rfl

/-- **Which names are stored correctly.**  Into an image built by any sequence of writes, a
write stays inside the memory that it asks for if and only if the name has at most 494
bytes, and it stores the name with the right length if and only if there are at most
255. -/
theorem name_stored_iff {ctx₀ ctx : Ctx} {junk : Nat → UInt8} {ws : List Write}
    (hnull : ctx₀.dataptr = none) (hbuild : build ctx₀ junk ws = some ctx) (name : CString)
    (data : List UInt8) (fresh : Nat → UInt8) :
    ((luatLuadb2Write ctx name data (some fresh)).isSome = true ↔ strlen name ≤ 494) ∧
      (NameStored ctx name data fresh ↔ strlen name ≤ 255) := by
  have hholds := build_holds hnull hbuild
  obtain ⟨b, hptr, -⟩ := id hholds
  refine ⟨hholds.write_isSome_iff name data fresh, ?_⟩
  constructor
  · rintro ⟨ctx', b', hw, hb', hbyte, -⟩
    rw [(hholds.name_field hw hb').1, UInt8.toNat_ofNat'] at hbyte
    omega
  · intro hname
    have hw : luatLuadb2Write ctx name data (some fresh) = some (_, 0) :=
      write_ok_iff.2 ⟨b, fresh, hptr, rfl, by omega, rfl⟩
    obtain ⟨b', hb', -⟩ := hholds.write hw
    obtain ⟨hbyte, hbytes⟩ := hholds.name_field hw hb'
    refine ⟨_, b', hw, hb', ?_, hbytes⟩
    rw [hbyte, UInt8.toNat_ofNat']
    omega

/-- One more file behind three. -/
theorem name_stored_iff_fourth : ∃ ctx, build nullCtx (fun _ => 0) threeWrites = some ctx ∧
    NameStored ctx smallWrite.name smallWrite.data smallWrite.junk := by
  have hname : ∀ w ∈ threeWrites, strlen w.name ≤ 494 := by decide
  have hnull : nullCtx.dataptr = none := rfl
  obtain ⟨ctx, hbuild⟩ := build_of_fits (fun _ => 0) hnull hname
  exact ⟨ctx, hbuild, (name_stored_iff hnull hbuild _ _ _).2.2 (by decide)⟩

/-- A name of the given length. -/
def longName (n : Nat) : CString where
  bytes := List.replicate n 0x61
  nulFree := by
    intro h
    exact absurd (List.eq_of_mem_replicate h) (by decide)

/-- The length byte of a name of 256 bytes is 0, and a name of 500 bytes does not fit. -/
theorem long_names_not_stored : ∃ ctx ctx' b, build nullCtx (fun _ => 0) [] = some ctx ∧
    luatLuadb2Write ctx (longName 256) [] (some fun _ => 0) = some (ctx', 0) ∧
    ctx'.dataptr = some b ∧ b.getD (ctx.offset + 7) 0 = 0 ∧
    luatLuadb2Write ctx (longName 500) [] (some fun _ => 0) = none := by
  have hnull : nullCtx.dataptr = none := rfl
  have hlen : ∀ n, strlen (longName n) = n := fun n => List.length_replicate
  obtain ⟨ctx, hholds, hbuild⟩ := build_eq (fun _ => 0) hnull
  obtain ⟨b, hptr, -⟩ := id hholds
  have hw : luatLuadb2Write ctx (longName 256) [] (some fun _ => 0) = some (_, 0) :=
    write_ok_iff.2 ⟨b, _, hptr, rfl, by rw [hlen]; decide, rfl⟩
  obtain ⟨b', hb', -⟩ := hholds.write hw
  refine ⟨ctx, _, b', hbuild [], hw, hb', ?_, ?_⟩
  · rw [(hholds.name_field hw hb').1, hlen]
    rfl
  · rw [← Option.not_isSome_iff_eq_none, hholds.write_isSome_iff, hlen]
    decide

end LuatosPc.Luadb
