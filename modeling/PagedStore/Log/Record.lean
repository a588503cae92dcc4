import PagedStore.Failure
import PagedStore.Page.Value

set_option autoImplicit false

/-!
The log record of a write: who wrote, which block, where in its payload, and the new bytes. Main
statement: `decode?` reads back what `encode` writes.
-/

namespace PagedStore

/-- A write as the log tells it. -/
structure Update where
  tx : TxId
  block : BlockId
  offset : Nat
  bytes : Bytes
  deriving DecidableEq

namespace Update

def encode (u : Update) : Bytes :=
  bigEndian 8 u.tx.num ++ Value.encodeRun (utf8 u.block.file) ++ bigEndian 8 u.block.number ++
    bigEndian 4 u.offset ++ u.bytes

def number? (width : Nat) (bs : Bytes) : Option (Nat × Bytes) :=
  if bs.length < width then none else some (ofBigEndian (bs.take width), bs.drop width)

def decode? (bs : Bytes) : Option Update := do
  let (tx, bs) ← number? 8 bs
  let (len, bs) ← number? 4 bs
  if bs.length < len then none
  else
    let file ← ofUtf8? (bs.take len)
    let (number, bs) ← number? 8 (bs.drop len)
    let (offset, bs) ← number? 4 bs
    return { tx := ⟨tx⟩, block := ⟨file, number⟩, offset, bytes := bs }

theorem number?_bigEndian {width n : Nat} (h : n < wordLimit width) (rest : Bytes) :
    number? width (bigEndian width n ++ rest) = some (n, rest) := by
  simp only [number?, List.length_append, length_bigEndian]
  rw [if_neg (by omega), List.take_left' (length_bigEndian _ _),
    List.drop_left' (length_bigEndian _ _), ofBigEndian_bigEndian_of_lt h]

/-- A record is read back if its numbers fit their fields. -/
theorem decode?_encode {u : Update} (htx : u.tx.num < wordLimit 8)
    (hfile : u.block.file.utf8ByteSize < wordLimit 4) (hnumber : u.block.number < wordLimit 8)
    (hoffset : u.offset < wordLimit 4) : decode? u.encode = some u := by
  have h1 := @number?_bigEndian 8 u.tx.num htx
  have h2 := @number?_bigEndian 4 (utf8 u.block.file).length hfile
  have h3 := @number?_bigEndian 8 u.block.number hnumber
  have h4 := @number?_bigEndian 4 u.offset hoffset
  simp only [encode, Value.encodeRun, List.append_assoc, decode?, h1, h2, Option.bind_eq_bind,
    Option.bind_some, List.length_append]
  rw [if_neg (by omega), List.take_left' rfl, List.drop_left' rfl, ofUtf8?_utf8]
  simp only [Option.bind_some, h3, h4]
  rfl

end Update

end PagedStore
