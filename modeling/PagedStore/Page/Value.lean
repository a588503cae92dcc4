import PagedStore.Bytes

set_option autoImplicit false

/-!
Typed values and their written form on a page: integers as big-endian words, byte strings and
texts behind their length in four bytes. Main statement: `decode_eq_ok_iff`, by which `decode` reads
just what `encode` writes, as far as the length of a run can be told in four bytes.
-/

namespace PagedStore

inductive Kind where
  | int
  | long
  | bytes
  | text
  deriving DecidableEq

inductive Value where
  | int (v : Int32)
  | long (v : Int64)
  | bytes (bs : Bytes)
  | text (s : String)
  deriving DecidableEq

def Kind.name : Kind → String
  | .int => "Int"
  | .long => "Long"
  | .bytes => "Bytes"
  | .text => "Str"

def utf8 (s : String) : Bytes := s.toUTF8.data.toList

def ofUtf8? (bs : Bytes) : Option String := String.fromUTF8? ⟨bs.toArray⟩

@[simp] theorem length_utf8 (s : String) : (utf8 s).length = s.utf8ByteSize := rfl

theorem ofUtf8?_utf8 (s : String) : ofUtf8? (utf8 s) = some s := by
  have h : s.toByteArray.IsValidUTF8 := s.isValidUTF8
  simp [ofUtf8?, utf8, String.fromUTF8?, String.fromUTF8]
  exact h

theorem utf8_of_ofUtf8? {bs : Bytes} {s : String} (h : ofUtf8? bs = some s) : utf8 s = bs := by
  simp only [ofUtf8?, String.fromUTF8?] at h
  split at h
  · cases h; simp [utf8, String.fromUTF8]
  · cases h

namespace Value

def kind : Value → Kind
  | .int _ => .int
  | .long _ => .long
  | .bytes _ => .bytes
  | .text _ => .text

def encodeRun (bs : Bytes) : Bytes := bigEndian 4 bs.length ++ bs

def encode : Value → Bytes
  | .int v => bigEndian 4 v.toUInt32.toNat
  | .long v => bigEndian 8 v.toUInt64.toNat
  | .bytes bs => encodeRun bs
  | .text s => encodeRun (utf8 s)

def size : Value → Nat
  | .int _ => 4
  | .long _ => 8
  | .bytes bs => 4 + bs.length
  | .text s => 4 + s.utf8ByteSize

/-- The number of bytes in the run of a value, if it has one. -/
def runLength : Value → Nat
  | .int _ | .long _ => 0
  | .bytes bs => bs.length
  | .text s => s.utf8ByteSize

theorem runLength_le_size (v : Value) : v.runLength ≤ v.size := by
  cases v with
  | int _ | long _ => exact Nat.zero_le _
  | bytes _ | text _ => exact Nat.le_add_left ..

theorem size_pos (v : Value) : 0 < v.size := by
  cases v with
  | int n => exact Nat.succ_pos 3
  | long n => exact Nat.succ_pos 7
  | bytes bs => exact Nat.lt_of_lt_of_le (Nat.succ_pos 3) (Nat.le_add_right 4 bs.length)
  | text t => exact Nat.lt_of_lt_of_le (Nat.succ_pos 3) (Nat.le_add_right 4 t.utf8ByteSize)

theorem length_encode (v : Value) : v.encode.length = v.size := by
  cases v <;> simp [encode, size, encodeRun]

/-- Why bytes hold no value: more of them are needed, or they spell no text. -/
inductive Flaw where
  | short (needed : Nat)
  | notUtf8
  deriving DecidableEq

def decodeRun (src : Bytes) : Except Flaw Bytes :=
  if src.length < 4 then .error (.short 4)
  else
    let len := ofBigEndian (src.take 4)
    if src.length < 4 + len then .error (.short (4 + len))
    else .ok ((src.drop 4).take len)

def decode (kind : Kind) (src : Bytes) : Except Flaw Value :=
  match kind with
  | .int =>
    if src.length < 4 then .error (.short 4)
    else .ok (.int (UInt32.ofNat (ofBigEndian (src.take 4))).toInt32)
  | .long =>
    if src.length < 8 then .error (.short 8)
    else .ok (.long (UInt64.ofNat (ofBigEndian (src.take 8))).toInt64)
  | .bytes => (decodeRun src).map .bytes
  | .text =>
    match decodeRun src with
    | .error flaw => .error flaw
    | .ok bs =>
      match ofUtf8? bs with
      | none => .error .notUtf8
      | some s => .ok (.text s)

theorem decodeRun_encodeRun {bs : Bytes} (h : bs.length < wordLimit 4) (rest : Bytes) :
    decodeRun (encodeRun bs ++ rest) = .ok bs := by
  have hlen : ofBigEndian (bigEndian 4 bs.length) = bs.length :=
    ofBigEndian_bigEndian_of_lt h
  simp only [decodeRun, encodeRun, List.append_assoc, List.length_append, length_bigEndian,
    List.take_left' (length_bigEndian 4 _), List.drop_left' (length_bigEndian 4 _), hlen]
  rw [if_neg (by omega), if_neg (by omega), List.take_left' rfl]

/-- The run at the front is the one whose written form is there. -/
theorem decodeRun_eq_ok_iff {src bs : Bytes} : decodeRun src = .ok bs ↔
    bs.length < wordLimit 4 ∧ src.take (4 + bs.length) = encodeRun bs := by
  constructor
  · intro h
    unfold decodeRun at h
    split at h
    · cases h
    · rename_i hshort
      have hword : (src.take 4).length = 4 := List.length_take_of_le (Nat.le_of_not_lt hshort)
      have hlimit := ofBigEndian_lt hword
      have hback := bigEndian_ofBigEndian hword
      dsimp only at h
      generalize ofBigEndian (src.take 4) = len at h hlimit hback
      split at h
      · cases h
      · rename_i hfits
        obtain rfl := Except.ok.inj h
        have hlen : ((src.drop 4).take len).length = len := by
          rw [List.length_take, List.length_drop]
          omega
        rw [encodeRun, hlen, hback, List.take_add]
        exact ⟨hlimit, rfl⟩
  · rintro ⟨hlimit, htake⟩
    rw [← List.take_append_drop (4 + bs.length) src, htake]
    exact decodeRun_encodeRun hlimit _

/-- A value is read back from where it was written, whatever follows it. -/
theorem decode_encode {v : Value} (h : v.runLength < wordLimit 4) (rest : Bytes) :
    decode v.kind (v.encode ++ rest) = .ok v := by
  cases v with
  | int v =>
    simp only [kind, encode, decode, List.length_append, length_bigEndian]
    rw [if_neg (by omega), List.take_left' (length_bigEndian 4 _),
      ofBigEndian_bigEndian_of_lt (by have := v.toUInt32.toNat_lt; rw [wordLimit_four]; omega)]
    simp
  | long v =>
    simp only [kind, encode, decode, List.length_append, length_bigEndian]
    rw [if_neg (by omega), List.take_left' (length_bigEndian 8 _),
      ofBigEndian_bigEndian_of_lt (by have := v.toUInt64.toNat_lt; rw [wordLimit_eight]; omega)]
    simp
  | bytes bs => simp only [kind, encode, decode, decodeRun_encodeRun h, Except.map]
  | text s =>
    have hs : (utf8 s).length < wordLimit 4 := h
    simp only [kind, encode, decode, decodeRun_encodeRun hs, ofUtf8?_utf8]

theorem encode_of_decode {kind : Kind} {src : Bytes} {v : Value} (h : decode kind src = .ok v) :
    v.kind = kind ∧ v.runLength < wordLimit 4 ∧ src.take v.size = v.encode := by
  have hzero : 0 < wordLimit 4 := by decide
  cases kind with
  | int =>
    simp only [decode] at h
    split at h
    · cases h
    · rename_i hlen
      cases h
      have hword : (src.take 4).length = 4 := List.length_take_of_le (Nat.le_of_not_lt hlen)
      have hlimit := ofBigEndian_lt hword
      rw [wordLimit_four] at hlimit
      refine ⟨rfl, hzero, ?_⟩
      rw [encode, UInt32.toUInt32_toInt32, UInt32.toNat_ofNat_of_lt' hlimit,
        bigEndian_ofBigEndian hword, size]
  | long =>
    simp only [decode] at h
    split at h
    · cases h
    · rename_i hlen
      cases h
      have hword : (src.take 8).length = 8 := List.length_take_of_le (Nat.le_of_not_lt hlen)
      have hlimit := ofBigEndian_lt hword
      rw [wordLimit_eight] at hlimit
      refine ⟨rfl, hzero, ?_⟩
      rw [encode, UInt64.toUInt64_toInt64, UInt64.toNat_ofNat_of_lt' hlimit,
        bigEndian_ofBigEndian hword, size]
  | bytes =>
    cases hr : decodeRun src with
    | error flaw =>
      rw [decode, hr] at h
      cases h
    | ok bs =>
      rw [decode, hr] at h
      cases h
      exact ⟨rfl, decodeRun_eq_ok_iff.1 hr⟩
  | text =>
    cases hr : decodeRun src with
    | error flaw =>
      simp only [decode, hr] at h
      cases h
    | ok bs =>
      simp only [decode, hr] at h
      split at h
      · cases h
      · rename_i s hs
        cases h
        obtain rfl := utf8_of_ofUtf8? hs
        exact ⟨rfl, decodeRun_eq_ok_iff.1 hr⟩

/-- A value is read where, and only where, its written form is. -/
theorem decode_eq_ok_iff {kind : Kind} {src : Bytes} {v : Value} : decode kind src = .ok v ↔
    v.kind = kind ∧ v.runLength < wordLimit 4 ∧ src.take v.size = v.encode := by
  refine ⟨encode_of_decode, ?_⟩
  rintro ⟨rfl, hlimit, htake⟩
  rw [← List.take_append_drop v.size src, htake]
  exact decode_encode hlimit _

end Value

end PagedStore
