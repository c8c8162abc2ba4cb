import DxlBroker.Lib.Bytes
import Mathlib.Tactic

/-!
# MessagePack: what a reader and a writer rely on

`Codec` is the part of a MessagePack library that a message packer calls: `next` reads one object
off the front of a buffer, and the `pack` functions append an integer, a raw header and an array
header.  `Codec.LawfulOn` is the documented round trip for strings and arrays of some lengths: an
object that was packed is read back, and the bytes after it are left alone.

`msgpackC` is a concrete codec with the byte layout of the C library.  Its headers hold 32 bits of a
length, so that it keeps the round trip below `2 ^ 32`.
-/

namespace Msgpack

/-- The objects a reader distinguishes; maps, floats, booleans and extensions are `other`. -/
inductive Obj
  | int (i : ℤ)
  | str (b : Bytes)
  | bin (b : Bytes)
  | array (xs : List Obj)
  | other

/-- The library calls a message packer uses. -/
structure Codec where
  next : Bytes → Option (Obj × Bytes)
  packInt : ℤ → Bytes
  packV4raw : ℕ → Bytes
  packArray : ℕ → Bytes

/-- A raw object: its header, then its body. -/
def Codec.raw (c : Codec) (b : Bytes) : Bytes := c.packV4raw b.length ++ b

/-- The round trip for the strings and arrays whose lengths satisfy `fits`. -/
structure Codec.LawfulOn (c : Codec) (fits : ℕ → Prop) : Prop where
  next_int : ∀ (i : ℤ) (rest : Bytes), -2 ^ 31 ≤ i → i < 2 ^ 31 →
    c.next (c.packInt i ++ rest) = some (.int i, rest)
  next_raw : ∀ b rest : Bytes, fits b.length → c.next (c.raw b ++ rest) = some (.str b, rest)
  next_array : ∀ (bs : List Bytes) (rest : Bytes), fits bs.length → (∀ b ∈ bs, fits b.length) →
    c.next (c.packArray bs.length ++ (bs.flatMap c.raw ++ rest)) =
      some (.array (bs.map .str), rest)

/-- The round trip for the strings and arrays whose lengths are below a limit, if there is one. -/
def Codec.LawfulBelow (c : Codec) (limit : ℕ∞) : Prop := c.LawfulOn fun n => (n : ℕ∞) < limit

theorem Codec.LawfulOn.raw_ne_nil {c : Codec} {fits : ℕ → Prop} (hc : c.LawfulOn fits) {b : Bytes}
    (hb : fits b.length) : c.raw b ≠ [] := by
  intro hnil
  -- Otherwise an integer would be read as this string.
  have hraw := hc.next_raw b (c.packInt 0 ++ []) hb
  rw [hnil, List.nil_append, hc.next_int 0 [] (by decide) (by decide)] at hraw
  cases hraw

/-- An integer takes at least a byte: two of them cannot both begin where nothing was written. -/
theorem Codec.LawfulOn.packInt_ne_nil {c : Codec} {fits : ℕ → Prop} (hc : c.LawfulOn fits) {i : ℤ}
    (hlow : -2 ^ 31 ≤ i) (hhigh : i < 2 ^ 31) : c.packInt i ≠ [] := by
  intro hnil
  obtain ⟨j, hne, hjlow, hjhigh⟩ : ∃ j : ℤ, j ≠ i ∧ -2 ^ 31 ≤ j ∧ j < 2 ^ 31 := by
    by_cases hi : i = 0
    · exact ⟨1, by omega, by omega, by omega⟩
    · exact ⟨0, by omega, by omega, by omega⟩
  have hi := hc.next_int i (c.packInt j) hlow hhigh
  have hj := hc.next_int j [] hjlow hjhigh
  rw [hnil, List.nil_append] at hi
  rw [List.append_nil, hi, Option.some.injEq, Prod.mk.injEq, Obj.int.injEq] at hj
  exact hne hj.1.symm

/-- The round trip of a library that writes the low 32 bits of a length: a longer string is read
back only up to the length in its header, and its other bytes are taken for what follows. -/
structure Codec.Lawful32 (c : Codec) : Prop where
  next_int : ∀ (i : ℤ) (rest : Bytes), -2 ^ 31 ≤ i → i < 2 ^ 31 →
    c.next (c.packInt i ++ rest) = some (.int i, rest)
  next_raw : ∀ b rest : Bytes, c.next (c.raw b ++ rest) =
    some (.str (b.take (b.length % 2 ^ 32)), b.drop (b.length % 2 ^ 32) ++ rest)
  next_array : ∀ (bs : List Bytes) (rest : Bytes), bs.length < 2 ^ 32 →
    (∀ b ∈ bs, b.length < 2 ^ 32) →
    c.next (c.packArray bs.length ++ (bs.flatMap c.raw ++ rest)) =
      some (.array (bs.map .str), rest)

theorem Codec.Lawful32.lawfulOn {c : Codec} (hc : c.Lawful32) : c.LawfulOn (· < 2 ^ 32) where
  next_int := hc.next_int
  next_raw b rest hb := by
    rw [hc.next_raw, Nat.mod_eq_of_lt hb, List.take_length, List.drop_length, List.nil_append]
  next_array := hc.next_array

theorem Codec.Lawful32.lawfulBelow {c : Codec} (hc : c.Lawful32) : c.LawfulBelow (2 ^ 32) where
  next_int := hc.next_int
  next_raw b rest hb := hc.lawfulOn.next_raw b rest (by exact_mod_cast hb)
  next_array bs rest hlen hbs := hc.next_array bs rest (by exact_mod_cast hlen)
    fun b hb => by exact_mod_cast hbs b hb

/-! ### Big-endian numbers -/

/-- `k` big-endian bytes of `n`. -/
def be : ℕ → ℕ → Bytes
  | 0, _ => []
  | k + 1, n => (n / 256 ^ k).toUInt8 :: be k n

/-- Read `k` big-endian bytes on top of an accumulated value. -/
def readBe : ℕ → ℕ → Bytes → Option (ℕ × Bytes)
  | 0, acc, b => some (acc, b)
  | _ + 1, _, [] => none
  | k + 1, acc, x :: b => readBe k (acc * 256 + x.toNat) b

theorem readBe_be (k acc n : ℕ) (rest : Bytes) :
    readBe k acc (be k n ++ rest) = some (acc * 256 ^ k + n % 256 ^ k, rest) := by
  induction k generalizing acc with
  | zero => simp [readBe, be, Nat.mod_one]
  | succ k ih =>
    have hx : ((n / 256 ^ k).toUInt8).toNat = n / 256 ^ k % 256 := by
      simp [Nat.toUInt8]
    have hmod : n % 256 ^ (k + 1) = 256 ^ k * (n / 256 ^ k % 256) + n % 256 ^ k := by
      rw [pow_succ, Nat.mod_mul, Nat.add_comm]
    rw [be, List.cons_append, readBe, ih, hx, hmod, pow_succ]
    congr 2
    ring

/-- A `k`-byte number read back from its own bytes. -/
theorem readBe_self {k n : ℕ} (h : n < 256 ^ k) (rest : Bytes) :
    readBe k 0 (be k n ++ rest) = some (n, rest) := by
  rw [readBe_be, Nat.mod_eq_of_lt h, Nat.zero_mul, Nat.zero_add]

/-! ### Reading one object -/

/-- Split off a body of the given length. -/
def readBody (mk : Bytes → Obj) (r : ℕ × Bytes) : Option (Obj × Bytes) :=
  if r.1 ≤ r.2.length then some (mk (r.2.take r.1), r.2.drop r.1) else none

theorem readBody_append (mk : Bytes → Obj) (b rest : Bytes) :
    readBody mk (b.length, b ++ rest) = some (mk b, rest) := by
  simp [readBody]

/-- Read `n` objects one after another. -/
def readMany (p : Bytes → Option (Obj × Bytes)) : ℕ → Bytes → Option (List Obj × Bytes)
  | 0, b => some ([], b)
  | n + 1, b => (p b).bind fun r => (readMany p n r.2).map fun s => (r.1 :: s.1, s.2)

/-- A two's complement number of `k` bytes. -/
def signed (k n : ℕ) : ℤ := if 2 * n < 256 ^ k then n else (n : ℤ) - 256 ^ k

/-- The object with lead byte `t`; `inner` reads the elements of an array or a map. -/
def readLead (inner : Bytes → Option (Obj × Bytes)) (t : UInt8) (b : Bytes) :
    Option (Obj × Bytes) :=
  let uint := fun k => (readBe k 0 b).map fun r => (Obj.int r.1, r.2)
  let sint := fun k => (readBe k 0 b).map fun r => (Obj.int (signed k r.1), r.2)
  let arr := fun r : ℕ × Bytes => (readMany inner r.1 r.2).map fun s => (Obj.array s.1, s.2)
  let map := fun r : ℕ × Bytes => (readMany inner (2 * r.1) r.2).map fun s => (Obj.other, s.2)
  if t.toNat < 0x80 then some (.int t.toNat, b)
  else if t.toNat < 0x90 then map (t.toNat - 0x80, b)
  else if t.toNat < 0xa0 then arr (t.toNat - 0x90, b)
  else if t.toNat < 0xc0 then readBody .str (t.toNat - 0xa0, b)
  else if 0xe0 ≤ t.toNat then some (.int ((t.toNat : ℤ) - 256), b)
  else match t.toNat with
    | 0xc0 | 0xc2 | 0xc3 => some (.other, b)
    | 0xc4 => (readBe 1 0 b).bind (readBody .bin)
    | 0xc5 => (readBe 2 0 b).bind (readBody .bin)
    | 0xc6 => (readBe 4 0 b).bind (readBody .bin)
    | 0xca => readBody (fun _ => .other) (4, b)
    | 0xcb => readBody (fun _ => .other) (8, b)
    | 0xcc => uint 1
    | 0xcd => uint 2
    | 0xce => uint 4
    | 0xcf => uint 8
    | 0xd0 => sint 1
    | 0xd1 => sint 2
    | 0xd2 => sint 4
    | 0xd3 => sint 8
    | 0xd9 => (readBe 1 0 b).bind (readBody .str)
    | 0xda => (readBe 2 0 b).bind (readBody .str)
    | 0xdb => (readBe 4 0 b).bind (readBody .str)
    | 0xdc => (readBe 2 0 b).bind arr
    | 0xdd => (readBe 4 0 b).bind arr
    | 0xde => (readBe 2 0 b).bind map
    | 0xdf => (readBe 4 0 b).bind map
    | _ => none

/-- Read an object; the fuel bounds the nesting of arrays and maps. -/
def read : ℕ → Bytes → Option (Obj × Bytes)
  | 0, _ => none
  | _ + 1, [] => none
  | fuel + 1, t :: b => readLead (read fuel) t b

/-! ### Packing -/

/-- `msgpack_pack_int32`: the shortest form. -/
def packInt (i : ℤ) : Bytes :=
  if i < -32 then
    if i < -32768 then 0xd2 :: be 4 (i + 0x100000000).toNat
    else if i < -128 then 0xd1 :: be 2 (i + 0x10000).toNat
    else 0xd0 :: be 1 (i + 0x100).toNat
  else if i < 0 then [(i + 0x100).toNat.toUInt8]
  else if i < 128 then [i.toNat.toUInt8]
  else if i < 256 then 0xcc :: be 1 i.toNat
  else if i < 65536 then 0xcd :: be 2 i.toNat
  else 0xce :: be 4 i.toNat

/-- `msgpack_pack_v4raw`: a raw header of the old specification (no `str 8`); the long one stores 32
bits of the length. -/
def packV4raw (n : ℕ) : Bytes :=
  if n < 32 then [(0xa0 + n).toUInt8]
  else if n < 2 ^ 16 then 0xda :: be 2 n
  else 0xdb :: be 4 n

/-- `msgpack_pack_array`, with 32 bits of the count. -/
def packArray (n : ℕ) : Bytes :=
  if n < 16 then [(0x90 + n).toUInt8]
  else if n < 2 ^ 16 then 0xdc :: be 2 n
  else 0xdd :: be 4 n

/-- The codec with the C library's layout. -/
def msgpackC : Codec where
  next b := read (b.length + 1) b
  packInt := packInt
  packV4raw := packV4raw
  packArray := packArray

/-! ### The round trip -/

theorem toNat_toUInt8 {n : ℕ} (h : n < 256) : n.toUInt8.toNat = n := by
  simp [Nat.toUInt8, Nat.mod_eq_of_lt h]

theorem read_int (fuel : ℕ) {i : ℤ} (rest : Bytes) (hlo : -2 ^ 31 ≤ i) (hhi : i < 2 ^ 31) :
    read (fuel + 1) (packInt i ++ rest) = some (.int i, rest) := by
  unfold packInt
  split_ifs with h1 h2 h3 h4 h5 h6 h7
  · rw [List.cons_append, read]
    simp [readLead, readBe_self (k := 4) (n := (i + 0x100000000).toNat) (by omega), signed]
    omega
  · rw [List.cons_append, read]
    simp [readLead, readBe_self (k := 2) (n := (i + 0x10000).toNat) (by omega), signed]
    omega
  · rw [List.cons_append, read]
    simp [readLead, readBe_self (k := 1) (n := (i + 0x100).toNat) (by omega), signed]
    omega
  · have ht : ((i + 0x100).toNat.toUInt8).toNat = (i + 0x100).toNat := toNat_toUInt8 (by omega)
    rw [List.singleton_append, read, readLead]
    simp only [ht]
    rw [if_neg (by omega), if_neg (by omega), if_neg (by omega), if_neg (by omega),
      if_pos (by omega)]
    congr 3
    omega
  · have ht : (i.toNat.toUInt8).toNat = i.toNat := toNat_toUInt8 (by omega)
    rw [List.singleton_append, read, readLead]
    simp only [ht]
    rw [if_pos (by omega)]
    congr 3
    omega
  · rw [List.cons_append, read]
    simp [readLead, readBe_self (k := 1) (n := i.toNat) (by omega)]
    omega
  · rw [List.cons_append, read]
    simp [readLead, readBe_self (k := 2) (n := i.toNat) (by omega)]
    omega
  · rw [List.cons_append, read]
    simp [readLead, readBe_self (k := 4) (n := i.toNat) (by omega)]
    omega

theorem readBody_take (mk : Bytes → Obj) {n : ℕ} {b : Bytes} (h : n ≤ b.length) (rest : Bytes) :
    readBody mk (n, b ++ rest) = some (mk (b.take n), b.drop n ++ rest) := by
  have hn : n ≤ (b ++ rest).length := by
    rw [List.length_append]
    omega
  rw [readBody, if_pos hn]
  simp only [List.take_append_of_le_length h, List.drop_append_of_le_length h]

theorem readLead_raw32 (inner : Bytes → Option (Obj × Bytes)) (b : Bytes) :
    readLead inner 0xdb b = (readBe 4 0 b).bind (readBody .str) := by
  simp [readLead]

/-- A string that fits is read back. -/
theorem read_raw (fuel : ℕ) {b : Bytes} (hb : b.length < 2 ^ 32) (rest : Bytes) :
    read (fuel + 1) (packV4raw b.length ++ b ++ rest) = some (.str b, rest) := by
  unfold packV4raw
  split_ifs with h1 h2
  · have ht : ((0xa0 + b.length).toUInt8).toNat = 0xa0 + b.length := toNat_toUInt8 (by omega)
    rw [List.append_assoc, List.singleton_append, read, readLead]
    simp only [ht]
    rw [if_neg (by omega), if_neg (by omega), if_neg (by omega), if_pos (by omega),
      Nat.add_sub_cancel_left, readBody_append]
  · rw [List.append_assoc, List.cons_append, read]
    simp [readLead, readBe_self (k := 2) (n := b.length) (by omega), readBody_append]
  · rw [List.append_assoc, List.cons_append, read]
    simp [readLead, readBe_self (k := 4) (n := b.length) (by omega), readBody_append]

/-- Any string is read back up to the length in its header. -/
theorem read_raw32 (fuel : ℕ) (b rest : Bytes) :
    read (fuel + 1) (packV4raw b.length ++ b ++ rest) =
      some (.str (b.take (b.length % 2 ^ 32)), b.drop (b.length % 2 ^ 32) ++ rest) := by
  by_cases h : b.length < 2 ^ 32
  · rw [read_raw fuel h, Nat.mod_eq_of_lt h, List.take_length, List.drop_length, List.nil_append]
  · have hbe := readBe_be 4 0 b.length (b ++ rest)
    rw [Nat.zero_mul, Nat.zero_add, show (256 : ℕ) ^ 4 = 2 ^ 32 by norm_num] at hbe
    rw [packV4raw, if_neg (by omega), if_neg (by omega), List.append_assoc, List.cons_append,
      read, readLead_raw32, hbe, Option.bind_some, readBody_take _ (Nat.mod_le _ _)]

theorem readMany_raw (fuel : ℕ) {bs : List Bytes} (hbs : ∀ b ∈ bs, b.length < 2 ^ 32)
    (rest : Bytes) :
    readMany (read (fuel + 1)) bs.length ((bs.flatMap fun b => packV4raw b.length ++ b) ++ rest) =
      some (bs.map .str, rest) := by
  induction bs with
  | nil => rfl
  | cons b bs ih =>
    have hsplit : ((b :: bs).flatMap fun b => packV4raw b.length ++ b) ++ rest =
        packV4raw b.length ++ b ++ ((bs.flatMap fun b => packV4raw b.length ++ b) ++ rest) := by
      simp [List.flatMap_cons]
    rw [hsplit, List.length_cons, readMany, read_raw fuel (hbs b List.mem_cons_self)]
    simp [ih fun b' hb' => hbs b' (List.mem_cons_of_mem b hb')]

theorem read_array (fuel : ℕ) {bs : List Bytes} (hlen : bs.length < 2 ^ 32)
    (hbs : ∀ b ∈ bs, b.length < 2 ^ 32) (rest : Bytes) :
    read (fuel + 2) (packArray bs.length ++
        ((bs.flatMap fun b => packV4raw b.length ++ b) ++ rest)) =
      some (.array (bs.map .str), rest) := by
  unfold packArray
  split_ifs with h1 h2
  · have ht : ((0x90 + bs.length).toUInt8).toNat = 0x90 + bs.length := toNat_toUInt8 (by omega)
    rw [List.singleton_append, read, readLead]
    simp only [ht]
    rw [if_neg (by omega), if_neg (by omega), if_pos (by omega), Nat.add_sub_cancel_left,
      readMany_raw fuel hbs]
    rfl
  · rw [List.cons_append, read]
    simp [readLead, readBe_self (k := 2) (n := bs.length) (by omega), readMany_raw fuel hbs]
  · rw [List.cons_append, read]
    simp [readLead, readBe_self (k := 4) (n := bs.length) (by omega), readMany_raw fuel hbs]

/-- The concrete codec keeps the documented round trip, and cuts longer lengths to 32 bits. -/
theorem msgpackC_lawful32 : msgpackC.Lawful32 where
  next_int i rest hlo hhi := read_int _ rest hlo hhi
  next_raw b rest := read_raw32 _ b rest
  next_array bs rest hlen hbs := by
    have hone : 1 ≤ (packArray bs.length).length := by
      unfold packArray
      split_ifs <;> simp
    show read ((packArray bs.length ++ _).length + 1) _ = _
    obtain ⟨fuel, hfuel⟩ : ∃ fuel, (packArray bs.length ++
        (bs.flatMap msgpackC.raw ++ rest)).length + 1 = fuel + 2 :=
      ⟨(packArray bs.length ++ (bs.flatMap msgpackC.raw ++ rest)).length - 1, by
        rw [List.length_append]; omega⟩
    rw [hfuel]
    exact read_array fuel hlen hbs rest

end Msgpack
