import LuatosPc.Base.Bytes

/-!
# The luadb image: header, records and their reader

What a luadb image is, apart from the code that builds one: a header of 24
bytes, then one record for each file.  Every field of a record carries its
length in front of it, so a reader never looks for a tag inside a name or inside
the contents of a file.

* `header`, `record` — the two parts of an image; `header n` says that there are
  `n` files, in one byte.
* `decodeRecord`, `decodeRecords` — the reader of the format.
* `decodeRecord_record` — a record is read back whatever follows it, and the
  reader stops exactly at its end; `decodeRecords_flatMap` — so are the records
  of any list of files.
-/

namespace LuatosPc.Luadb

open LuatosPc.Bytes

/-- A file of the image. -/
structure File where
  /-- Its name, without a terminator. -/
  name : List UInt8
  /-- Its contents. -/
  data : List UInt8
  deriving DecidableEq, Repr

/-- The magic of the image, and of each record. -/
def magic : List UInt8 := [0x01, 0x04, 0x5A, 0xA5, 0x5A, 0xA5]

/-- The field of a checksum that is not computed. -/
def crc : List UInt8 := [0xFE, 0x02, 0x00, 0x00]

/-- The header of an image: version, size of the header, number of files. -/
def header (n : Nat) : List UInt8 :=
  magic ++ [0x02, 0x02, 0x02, 0x00] ++ [0x03, 0x04, 0x00, 0x00, 0x00, 0x18] ++
    [0x04, 0x02, UInt8.ofNat n, 0x00] ++ crc

/-- The record of one file. -/
def record (f : File) : List UInt8 :=
  magic ++ ([0x02, UInt8.ofNat f.name.length] ++ f.name) ++
    ([0x03, 0x04] ++ leBytes 4 f.data.length) ++ crc ++ f.data

/-- The names and contents that fit the length fields of a record. -/
def File.Fits (f : File) : Prop :=
  f.name.length < 256 ∧ f.data.length < 256 ^ 4

instance (f : File) : Decidable f.Fits := inferInstanceAs (Decidable (_ ∧ _))

@[simp] theorem length_header (n : Nat) : (header n).length = 24 := rfl

@[simp] theorem length_record (f : File) :
    (record f).length = 18 + f.name.length + f.data.length := by
  simp only [record, magic, crc, List.length_append, List.length_cons, List.length_nil,
    length_leBytes]
  omega

/-- The header of one file more differs in the count only. -/
theorem header_succ (n : Nat) (rest : List UInt8) :
    header (n + 1) ++ rest = (header n ++ rest).set 0x12 (UInt8.ofNat n + 1) := by
  rw [← UInt8.ofNat_one, ← UInt8.ofNat_add]
  rfl

/-! ## Reading an image -/

/-- Read one record off the front of a stream. -/
def decodeRecord (bs : List UInt8) : Option (File × List UInt8) := do
  let bs ← expect magic bs
  let bs ← expect [0x02] bs
  let (len, bs) ← takeBytes 1 bs
  let (name, bs) ← takeBytes (leValue len) bs
  let bs ← expect [0x03, 0x04] bs
  let (len, bs) ← takeBytes 4 bs
  let bs ← expect crc bs
  let (data, bs) ← takeBytes (leValue len) bs
  return (⟨name, data⟩, bs)

/-- Read records until the stream ends.  Each takes bytes off the stream, so its
length is enough fuel. -/
def decodeUpTo : Nat → List UInt8 → Option (List File)
  | _, [] => some []
  | 0, _ :: _ => none
  | k + 1, v :: vs => do
    let (f, rest) ← decodeRecord (v :: vs)
    let fs ← decodeUpTo k rest
    return f :: fs

/-- The files of a stream of records that ends with a record. -/
def decodeRecords (bs : List UInt8) : Option (List File) :=
  decodeUpTo bs.length bs

theorem leValue_singleton (v : UInt8) : leValue [v] = v.toNat := by
  simp [leValue]

/-- **A record is self-contained.**  It is read back whatever follows it. -/
theorem decodeRecord_record {f : File} (h : f.Fits) (rest : List UInt8) :
    decodeRecord (record f ++ rest) = some (f, rest) := by
  obtain ⟨hname, hdata⟩ := h
  have hlen : leValue [UInt8.ofNat f.name.length] = f.name.length := by
    rw [leValue_singleton]
    simp [Nat.mod_eq_of_lt hname]
  have hsplit : record f ++ rest = magic ++ ([0x02] ++ ([UInt8.ofNat f.name.length] ++ (f.name ++
      ([0x03, 0x04] ++ (leBytes 4 f.data.length ++ (crc ++ (f.data ++ rest))))))) := by
    simp only [record, List.append_assoc, List.cons_append, List.nil_append]
  rw [hsplit, decodeRecord]
  have hbyte (v : UInt8) (bs : List UInt8) : takeBytes 1 ([v] ++ bs) = some ([v], bs) :=
    takeBytes_append List.length_singleton bs
  simp only [expect_append, hbyte, hlen, takeBytes_append rfl, takeBytes_append (length_leBytes 4 _),
    leValue_leBytes hdata, Option.bind_eq_bind, Option.bind_some, Option.pure_def]

theorem decodeUpTo_flatMap {fs : List File} (h : ∀ f ∈ fs, f.Fits) {k : Nat}
    (hk : (fs.flatMap record).length ≤ k) : decodeUpTo k (fs.flatMap record) = some fs := by
  induction fs generalizing k with
  | nil => cases k <;> rfl
  | cons f fs ih =>
    rw [List.flatMap_cons, List.length_append, length_record] at hk
    obtain ⟨k, rfl⟩ := Nat.exists_eq_add_of_lt (show 0 < k by omega)
    obtain ⟨v, vs, hcons⟩ : ∃ v vs, record f ++ fs.flatMap record = v :: vs := ⟨_, _, rfl⟩
    have hrec := decodeRecord_record (h f List.mem_cons_self) (fs.flatMap record)
    have hrest := ih (fun g hg => h g (List.mem_cons_of_mem f hg)) (k := 0 + k) (by omega)
    rw [List.flatMap_cons, hcons, decodeUpTo, ← hcons, hrec]
    simp only [Option.bind_eq_bind, Option.bind_some, hrest, Option.pure_def]

/-- **Records are read back**, in the order in which they stand, up to the end of
the stream. -/
theorem decodeRecords_flatMap {fs : List File} (h : ∀ f ∈ fs, f.Fits) :
    decodeRecords (fs.flatMap record) = some fs :=
  decodeUpTo_flatMap h (Nat.le_refl _)

end LuatosPc.Luadb
