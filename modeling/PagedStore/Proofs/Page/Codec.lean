import PagedStore.Proofs.Pool.Overlaid

set_option autoImplicit false

/-!
Typed values on a page. Main statement: `page_round_trip`. A value that fits is written, and read
back from its place, and everything outside its place stays as it was; and what is read at any place
of any page is what is written there. Both are also carried out cut by cut, where to ask for more
bytes than there are would be a crash, and never is (`Page.readCut_eq`, `Page.writeCut_of_ok`).
-/

namespace PagedStore

def checkedAdd (m n : Nat) : Option Nat := if m + n < wordLimit 8 then some (m + n) else none

theorem mem_checkedAdd {m n k : Nat} : k ∈ checkedAdd m n ↔ m + n < wordLimit 8 ∧ m + n = k := by
  simp [checkedAdd]

/-- The first `n` bytes and the others. To ask for more than there are is a crash, which `none`
stands for. -/
def cut? (n : Nat) (bs : Bytes) : Option (Bytes × Bytes) :=
  if n ≤ bs.length then some (bs.take n, bs.drop n) else none

theorem cut?_of_le {n : Nat} {bs : Bytes} (h : n ≤ bs.length) :
    cut? n bs = some (bs.take n, bs.drop n) := if_pos h

theorem le_length_of_take {n : Nat} {bs front : Bytes} (h : bs.take n = front)
    (hn : front.length = n) : n ≤ bs.length := by
  rw [← h, List.length_take] at hn
  omega

def Kind.fixed : Kind → Nat
  | .int | .bytes | .text => 4
  | .long => 8

theorem Kind.fixed_pos (kind : Kind) : 0 < kind.fixed := by
  cases kind <;> decide

namespace Value

variable {kind : Kind} {src src' : Bytes} {v : Value}

def runAt (src : Bytes) : Bytes := (src.drop 4).take (ofBigEndian (src.take 4))

/-- The bytes that the value at the front has, by the length before its run. -/
def extent (kind : Kind) (src : Bytes) : Nat :=
  match kind with
  | .int => 4
  | .long => 8
  | .bytes | .text => 4 + ofBigEndian (src.take 4)

def Whole (kind : Kind) (src : Bytes) : Prop :=
  kind.fixed ≤ src.length ∧ extent kind src ≤ src.length

instance : Decidable (Whole kind src) := inferInstanceAs (Decidable (_ ∧ _))

theorem decodeRun_of_whole (h : Whole .bytes src) : decodeRun src = .ok (runAt src) := by
  have hfixed : ¬ src.length < 4 := Nat.not_lt.2 h.1
  unfold decodeRun
  rw [if_neg hfixed]
  exact if_neg (Nat.not_lt.2 h.2)

theorem decodeRun_of_not_whole (h : ¬ Whole .bytes src) :
    ∃ needed, decodeRun src = .error (.short needed) := by
  unfold decodeRun
  split
  · exact ⟨4, rfl⟩
  · rename_i hfixed
    exact ⟨_, if_pos (Nat.lt_of_not_le fun hall => h ⟨Nat.le_of_not_lt hfixed, hall⟩)⟩

theorem decode_of_not_whole (h : ¬ Whole kind src) :
    ∃ needed, decode kind src = .error (.short needed) := by
  cases kind with
  | int | long =>
    exact ⟨_, if_pos (Nat.lt_of_not_le fun hle => h ⟨hle, hle⟩)⟩
  | bytes =>
    obtain ⟨needed, hrun⟩ := decodeRun_of_not_whole h
    exact ⟨needed, by rw [decode, hrun]; rfl⟩
  | text =>
    obtain ⟨needed, hrun⟩ := decodeRun_of_not_whole h
    exact ⟨needed, by rw [decode, hrun]⟩

theorem ofUtf8?_eq_none_iff {bs : Bytes} : ofUtf8? bs = none ↔ ∀ s, utf8 s ≠ bs := by
  refine ⟨fun h s hs => ?_, fun h => ?_⟩
  · rw [← hs, ofUtf8?_utf8] at h
    cases h
  · cases hs : ofUtf8? bs with
    | none => rfl
    | some s => exact absurd (utf8_of_ofUtf8? hs) (h s)

/-- Where all bytes of a value are there it is read, unless they would have to be a text and are
none. -/
theorem decode_of_whole (h : Whole kind src) : (∃ v, decode kind src = .ok v) ∨
    decode kind src = .error .notUtf8 ∧ kind = .text ∧ ∀ s, utf8 s ≠ runAt src := by
  cases kind with
  | int | long => exact .inl ⟨_, if_neg (Nat.not_lt.2 h.1)⟩
  | bytes =>
    refine .inl ⟨.bytes (runAt src), ?_⟩
    rw [decode, decodeRun_of_whole h]
    rfl
  | text =>
    have hrun : decodeRun src = .ok (runAt src) := decodeRun_of_whole h
    cases hs : ofUtf8? (runAt src) with
    | some s => exact .inl ⟨.text s, by simp only [decode, hrun, hs]⟩
    | none =>
      exact .inr ⟨by simp only [decode, hrun, hs], rfl, ofUtf8?_eq_none_iff.1 hs⟩

theorem decode_eq_short_iff :
    (∃ needed, decode kind src = .error (.short needed)) ↔ ¬ Whole kind src := by
  refine ⟨fun ⟨needed, hshort⟩ h => ?_, decode_of_not_whole⟩
  rcases decode_of_whole h with ⟨v, hv⟩ | ⟨hn, -⟩
  · rw [hshort] at hv
    cases hv
  · rw [hshort] at hn
    cases hn

theorem decode_eq_notUtf8_iff : decode kind src = .error .notUtf8 ↔
    kind = .text ∧ Whole kind src ∧ ∀ s, utf8 s ≠ runAt src := by
  constructor
  · intro h
    have hwhole : Whole kind src := by
      refine Classical.byContradiction fun hn => ?_
      obtain ⟨needed, hshort⟩ := decode_of_not_whole hn
      rw [h] at hshort
      cases hshort
    rcases decode_of_whole hwhole with ⟨v, hv⟩ | ⟨-, hkind, hrun⟩
    · rw [h] at hv
      cases hv
    · exact ⟨hkind, hwhole, hrun⟩
  · rintro ⟨rfl, hwhole, hrun⟩
    simp only [decode, show decodeRun src = .ok (runAt src) from decodeRun_of_whole hwhole,
      ofUtf8?_eq_none_iff.2 hrun]

/-- `decode`, cut by cut. -/
def decodeCut (kind : Kind) (src : Bytes) : Option (Except Flaw Value) :=
  match kind with
  | .int =>
    if src.length < 4 then some (.error (.short 4))
    else (cut? 4 src).map fun c => .ok (.int (UInt32.ofNat (ofBigEndian c.1)).toInt32)
  | .long =>
    if src.length < 8 then some (.error (.short 8))
    else (cut? 8 src).map fun c => .ok (.long (UInt64.ofNat (ofBigEndian c.1)).toInt64)
  | .bytes | .text =>
    if src.length < 4 then some (.error (.short 4))
    else
      (cut? 4 src).bind fun c =>
        (checkedAdd 4 (ofBigEndian c.1)).bind fun needed =>
          if src.length < needed then some (.error (.short needed))
          else
            (cut? (ofBigEndian c.1) c.2).map fun c =>
              if kind = .bytes then .ok (.bytes c.1)
              else
                match ofUtf8? c.1 with
                | none => .error .notUtf8
                | some s => .ok (.text s)

theorem decodeCut_eq (kind : Kind) (src : Bytes) : decodeCut kind src = some (decode kind src) := by
  cases kind with
  | int | long =>
    unfold decodeCut decode
    dsimp only
    split
    · rfl
    · rename_i hlen
      rw [cut?_of_le (Nat.le_of_not_lt hlen)]
      rfl
  | bytes | text =>
    unfold decodeCut decode decodeRun
    dsimp only
    split
    · rfl
    · rename_i hlen
      have hword := ofBigEndian_lt (List.length_take_of_le (Nat.le_of_not_lt hlen))
      have hsum : checkedAdd 4 (ofBigEndian (src.take 4)) =
          some (4 + ofBigEndian (src.take 4)) := by
        rw [wordLimit_four] at hword
        exact if_pos (by rw [wordLimit_eight]; omega)
      rw [cut?_of_le (Nat.le_of_not_lt hlen), Option.bind_some, hsum, Option.bind_some]
      dsimp only
      split
      · rfl
      · rename_i hall
        rw [cut?_of_le (by rw [List.length_drop]; omega)]
        rfl

def encodeCut (v : Value) (place : Bytes) : Option Bytes :=
  match v with
  | .int n => (cut? 4 place).map fun c => bigEndian 4 n.toUInt32.toNat ++ c.2
  | .long n => (cut? 8 place).map fun c => bigEndian 8 n.toUInt64.toNat ++ c.2
  | .bytes bs =>
    (cut? 4 place).bind fun c =>
      (cut? bs.length c.2).map fun d => bigEndian 4 bs.length ++ (bs ++ d.2)
  | .text s =>
    (cut? 4 place).bind fun c =>
      (cut? (utf8 s).length c.2).map fun d => bigEndian 4 (utf8 s).length ++ (utf8 s ++ d.2)

theorem encodeCut_eq (v : Value) {place : Bytes} (h : place.length = v.size) :
    v.encodeCut place = some v.encode := by
  have hrun : ∀ run : Bytes, place.length = 4 + run.length → ((cut? 4 place).bind fun c =>
      (cut? run.length c.2).map fun d => bigEndian 4 run.length ++ (run ++ d.2)) =
        some (encodeRun run) := by
    intro run hlen
    have hrest : (place.drop 4).length = run.length := by
      rw [List.length_drop]
      omega
    rw [cut?_of_le (by omega), Option.bind_some, cut?_of_le (Nat.le_of_eq hrest.symm),
      Option.map_some, ← hrest, List.drop_length, hrest, List.append_nil]
    rfl
  cases v with
  | int n | long n =>
    rw [size] at h
    rw [encodeCut, cut?_of_le (Nat.le_of_eq h.symm), Option.map_some,
      List.drop_eq_nil_of_le (Nat.le_of_eq h), List.append_nil]
    rfl
  | bytes bs => exact hrun bs h
  | text s => exact hrun (utf8 s) h

end Value

namespace Page

variable {data data' : Bytes} {offset : Nat} {kind : Kind} {v : Value}

/-- All bytes of the value at a place are there. -/
def Holds (data : Bytes) (offset : Nat) (kind : Kind) : Prop :=
  offset + kind.fixed ≤ capacity data ∧
    offset + Value.extent kind ((payload data).drop offset) ≤ capacity data

instance : Decidable (Holds data offset kind) := inferInstanceAs (Decidable (_ ∧ _))

theorem whole_iff : Value.Whole kind ((payload data).drop offset) ↔ Holds data offset kind := by
  have hpos := kind.fixed_pos
  unfold Value.Whole Holds
  rw [List.length_drop, length_payload]
  omega

/-- Reading is decoding from the offset on, also where the offset is behind the end. -/
theorem read_eq (data : Bytes) (offset : Nat) (kind : Kind) :
    (∀ v, read data offset kind = .ok v ↔
      Value.decode kind ((payload data).drop offset) = .ok v) ∧
    (read data offset kind = .error .invalidUtf8 ↔
      Value.decode kind ((payload data).drop offset) = .error .notUtf8) ∧
    ((∃ needed, read data offset kind = .error (.outOfBounds offset needed (capacity data))) ↔
      ∃ needed, Value.decode kind ((payload data).drop offset) = .error (.short needed)) := by
  by_cases hout : capacity data ≤ offset
  · have hnot : ¬ Value.Whole kind ((payload data).drop offset) := by
      have hpos := kind.fixed_pos
      rw [whole_iff]
      intro hholds
      have hfixed := hholds.1
      omega
    obtain ⟨needed, hshort⟩ := Value.decode_of_not_whole hnot
    rw [read, if_pos hout, hshort]
    exact ⟨fun v => ⟨nofun, nofun⟩, ⟨nofun, nofun⟩, ⟨fun _ => ⟨needed, rfl⟩, fun _ => ⟨0, rfl⟩⟩⟩
  · rw [read, if_neg hout]
    cases hd : Value.decode kind ((payload data).drop offset) with
    | ok w => simp
    | error flaw => cases flaw <;> simp

theorem read_eq_ok_iff : read data offset kind = .ok v ↔ v.kind = kind ∧
    v.runLength < wordLimit 4 ∧ ((payload data).drop offset).take v.size = v.encode := by
  rw [(read_eq data offset kind).1 v, Value.decode_eq_ok_iff]

theorem take_drop_eq_iff {bs run : Bytes} : ((bs.drop offset).take run.length = run) ↔
    ∀ k < run.length, bs[offset + k]? = run[k]? := by
  constructor
  · intro h k hk
    rw [← List.getElem?_drop, ← List.getElem?_take_of_lt hk, h]
  · intro h
    refine List.ext_getElem? fun k => ?_
    by_cases hk : k < run.length
    · rw [List.getElem?_take_of_lt hk, List.getElem?_drop, h k hk]
    · rw [List.getElem?_eq_none (Nat.le_trans (List.length_take_le ..) (Nat.le_of_not_lt hk)),
        List.getElem?_eq_none (Nat.le_of_not_lt hk)]

theorem read_of_bytes (hv : v.runLength < wordLimit 4)
    (h : ∀ k < v.size, (payload data)[offset + k]? = v.encode[k]?) :
    read data offset v.kind = .ok v := by
  rw [← v.length_encode] at h
  refine read_eq_ok_iff.2 ⟨rfl, hv, ?_⟩
  rw [← v.length_encode]
  exact take_drop_eq_iff.2 h

theorem read_congr (h : read data offset kind = .ok v)
    (hsame : ∀ k < v.size, (payload data')[offset + k]? = (payload data)[offset + k]?) :
    read data' offset kind = .ok v := by
  obtain ⟨rfl, hlimit, hbytes⟩ := read_eq_ok_iff.1 h
  rw [← v.length_encode] at hbytes
  refine read_of_bytes hlimit fun k hk => (hsame k hk).trans ?_
  exact take_drop_eq_iff.1 hbytes k (v.length_encode.symm ▸ hk)

/-- `read`, cut by cut. -/
def readCut (data : Bytes) (offset : Nat) (kind : Kind) : Option (Except Error Value) :=
  (cut? headerSize data).bind fun page =>
    if page.2.length ≤ offset then some (.error (.outOfBounds offset 0 page.2.length))
    else
      (cut? offset page.2).bind fun place =>
        (Value.decodeCut kind place.2).map fun
          | .ok v => .ok v
          | .error (.short needed) => .error (.outOfBounds offset needed page.2.length)
          | .error .notUtf8 => .error .invalidUtf8

theorem readCut_eq (h : headerSize ≤ data.length) (offset : Nat) (kind : Kind) :
    readCut data offset kind = some (read data offset kind) := by
  rw [readCut, cut?_of_le h, Option.bind_some, ← payload, length_payload, read]
  split
  · rfl
  · rename_i hin
    rw [cut?_of_le (by rw [length_payload]; omega), Option.bind_some, Value.decodeCut_eq]
    cases Value.decode kind ((payload data).drop offset) with
    | ok v => rfl
    | error flaw => cases flaw <;> rfl

/-- `write` into the bytes themselves, cut by cut: what it answers, and the bytes then. -/
def writeCut (data : Bytes) (offset : Nat) (v : Value) : Option (Except Error Unit × Bytes) :=
  (cut? headerSize data).bind fun page =>
    match (checkedAdd offset v.size).filter (· ≤ page.2.length) with
    | none => some (.error (.outOfBounds offset v.size page.2.length), data)
    | some last =>
      (cut? offset page.2).bind fun place =>
        (cut? (last - offset) place.2).bind fun range =>
          (v.encodeCut range.1).map fun bytes =>
            (.ok (), page.1 ++ (place.1 ++ (bytes ++ range.2)))

theorem writeCut_of_error {e : Error} (h : headerSize ≤ data.length)
    (hw : write data offset v = .error e) : writeCut data offset v = some (.error e, data) := by
  unfold write at hw
  split at hw
  · cases hw
  · rename_i hout
    cases hw
    have hsum : (checkedAdd offset v.size).filter (· ≤ (payload data).length) = none := by
      rw [Option.filter_eq_none_iff]
      intro last hlast
      obtain ⟨-, rfl⟩ := mem_checkedAdd.1 hlast
      simpa using hout
    rw [writeCut, cut?_of_le h, Option.bind_some, ← payload]
    simp only [hsum]
    rw [length_payload]

theorem writeCut_of_ok (hlimit : data.length < wordLimit 8) (hw : write data offset v = .ok data') :
    writeCut data offset v = some (.ok (), data') := by
  obtain ⟨hfits, rfl⟩ := write_eq_ok hw
  have hroom : headerSize ≤ data.length := by omega
  have hcapacity : (payload data).length = data.length - headerSize := length_payload data
  have hsum : (checkedAdd offset v.size).filter (· ≤ (payload data).length) =
      some (offset + v.size) := by
    rw [checkedAdd, if_pos (by omega), Option.filter_some, if_pos]
    exact decide_eq_true (by omega)
  have hrange : (((payload data).drop offset).take v.size).length = v.size := by
    rw [List.length_take, List.length_drop]
    omega
  rw [writeCut, cut?_of_le hroom, Option.bind_some, ← payload]
  simp only [hsum, Nat.add_sub_cancel_left]
  rw [cut?_of_le (by omega), Option.bind_some, cut?_of_le (by rw [List.length_drop]; omega),
    Option.bind_some, Value.encodeCut_eq v hrange, Option.map_some, overlay, v.length_encode]
  have hfront : data.take (headerSize + offset) =
      data.take headerSize ++ (payload data).take offset := List.take_add
  have hback : data.drop (headerSize + offset + v.size) =
      ((payload data).drop offset).drop v.size := by
    rw [payload, List.drop_drop, List.drop_drop, Nat.add_assoc]
  rw [hfront, hback]
  simp only [List.append_assoc]

end Page

namespace Frame

variable {f g : Frame} {offset : Nat} {v : Value} {e : Error}

/-- `g` is what `f` becomes when `v` is written to it: the written form of `v` is in its place, from
where it is read unless its run is too long for the length before it, and every other byte stays,
those of the header too. -/
structure Stored (f g : Frame) (offset : Nat) (v : Value) : Prop where
  cut : Page.writeCut f.data offset v = some (.ok (), g.data)
  rest : g = { f with data := g.data, dirty := true }
  length : g.data.length = f.data.length
  inside : ((Page.payload g.data).drop offset).take v.size = v.encode
  outside : ∀ k, k < Page.headerSize + offset ∨ Page.headerSize + offset + v.size ≤ k →
    g.data[k]? = f.data[k]?
  lsn : Page.lsn g.data = Page.lsn f.data
  read : g.read offset v.kind = .ok v ↔ v.runLength < wordLimit 4
  apart : ∀ other (u : Value), other + u.size ≤ offset ∨ offset + v.size ≤ other →
    (g.read other u.kind = .ok u ↔ f.read other u.kind = .ok u)

/-- Nothing became of writing `v` to `f`. -/
structure Refused (f : Frame) (offset : Nat) (v : Value) (e : Error) : Prop where
  cut : Page.writeCut f.data offset v = some (.error e, f.data)
  told : e = .outOfBounds offset v.size f.capacity
  kept : ∀ (s : Store) (i : Nat), s.pool.frames[i]? = some f →
    s.editFrame i (·.write offset v) = (.error e, s)

/-- What reading a value of a kind at a place of `f` comes to. -/
structure Readable (f : Frame) (offset : Nat) (kind : Kind) : Prop where
  cut : Page.readCut f.data offset kind = some (f.read offset kind)
  ok : ∀ v, f.read offset kind = .ok v ↔ v.kind = kind ∧ v.runLength < wordLimit 4 ∧
    ((Page.payload f.data).drop offset).take v.size = v.encode
  back : ∀ v, f.read offset kind = .ok v → f.write offset v = .ok { f with dirty := true }
  invalid : f.read offset kind = .error .invalidUtf8 ↔ kind = .text ∧
    Page.Holds f.data offset kind ∧ ∀ s, utf8 s ≠ Value.runAt ((Page.payload f.data).drop offset)
  outside : (∃ needed, f.read offset kind = .error (.outOfBounds offset needed f.capacity)) ↔
    ¬ Page.Holds f.data offset kind
  only : ∀ e, f.read offset kind = .error e →
    e = .invalidUtf8 ∨ ∃ needed, e = .outOfBounds offset needed f.capacity

theorem write_iff (f : Frame) (offset : Nat) (v : Value) :
    (∃ g, f.write offset v = .ok g) ↔ offset + v.size ≤ f.capacity := by
  unfold write Page.write capacity
  split
  · rename_i hfits
    exact iff_of_true ⟨_, rfl⟩ hfits
  · rename_i hout
    exact iff_of_false nofun hout

theorem stored_of_write (hlimit : f.data.length < wordLimit 8) (h : f.write offset v = .ok g) :
    f.Stored g offset v := by
  unfold write at h
  cases hw : Page.write f.data offset v with
  | error err =>
    rw [hw] at h
    cases h
  | ok data =>
    rw [hw] at h
    cases h
    obtain ⟨hfits, hdata⟩ := Page.write_eq_ok hw
    have hroom : Page.headerSize + offset + v.encode.length ≤ f.data.length := by
      rwa [v.length_encode]
    have hpayload := Page.payload_write hw
    have hin : offset + v.encode.length ≤ (Page.payload f.data).length := by
      rw [Page.length_payload, Page.capacity]
      omega
    have hinside : ((Page.payload data).drop offset).take v.size = v.encode := by
      rw [hpayload, ← v.length_encode]
      exact take_drop_overlay hin
    refine ⟨Page.writeCut_of_ok hlimit hw, rfl, Page.length_write hw, hinside, fun k hk => ?_,
      Page.lsn_write hw, ?_, fun other u hapart => ?_⟩
    · show data[k]? = _
      rw [hdata, getElem?_overlay hroom, if_neg (by rw [v.length_encode]; omega)]
    · refine ⟨fun hread => (Page.read_eq_ok_iff.1 hread).2.1, fun hrun => ?_⟩
      exact Page.read_eq_ok_iff.2 ⟨rfl, hrun, hinside⟩
    · have hsame : ∀ k < u.size,
          (Page.payload data)[other + k]? = (Page.payload f.data)[other + k]? := by
        intro k hk
        rw [hpayload, getElem?_overlay hin, if_neg (by rw [v.length_encode]; omega)]
      exact ⟨fun hread => Page.read_congr hread fun k hk => (hsame k hk).symm,
        fun hread => Page.read_congr hread hsame⟩

theorem refused_of_write (hroom : Page.headerSize ≤ f.data.length)
    (h : f.write offset v = .error e) : f.Refused offset v e := by
  have hkept : ∀ (s : Store) (i : Nat), s.pool.frames[i]? = some f →
      s.editFrame i (·.write offset v) = (.error e, s) := by
    intro s i hf
    unfold Store.editFrame
    simp only [hf, h]
  unfold write at h
  cases hw : Page.write f.data offset v with
  | ok data =>
    rw [hw] at h
    cases h
  | error err =>
    rw [hw] at h
    obtain rfl : err = e := Except.error.inj h
    refine ⟨Page.writeCut_of_error hroom hw, ?_, hkept⟩
    unfold Page.write at hw
    split at hw
    · cases hw
    · exact (Except.error.inj hw).symm

/-- What is read at a place is written there, so that to write it again changes nothing. -/
theorem write_of_read (h : f.read offset v.kind = .ok v) :
    f.write offset v = .ok { f with dirty := true } := by
  obtain ⟨-, -, hbytes⟩ := Page.read_eq_ok_iff.1 h
  have hle : v.size ≤ ((Page.payload f.data).drop offset).length :=
    le_length_of_take hbytes v.length_encode
  have hpos := v.size_pos
  rw [List.length_drop, Page.length_payload, Page.capacity] at hle
  have hfits : offset + v.size ≤ Page.capacity f.data := by
    rw [Page.capacity]
    omega
  have hsame : overlay f.data (Page.headerSize + offset) v.encode = f.data := by
    have hmiddle : v.encode = (f.data.drop (Page.headerSize + offset)).take v.size := by
      rw [← hbytes, Page.payload, List.drop_drop]
    have hback : f.data.drop (Page.headerSize + offset + v.size) =
        (f.data.drop (Page.headerSize + offset)).drop v.size := List.drop_drop.symm
    rw [overlay, v.length_encode, hback, hmiddle, List.append_assoc, List.take_append_drop,
      List.take_append_drop]
  rw [write, Page.write, if_pos hfits, hsame]
  rfl

theorem readable (hroom : Page.headerSize ≤ f.data.length) (offset : Nat) (kind : Kind) :
    f.Readable offset kind := by
  obtain ⟨-, hinvalid, hout⟩ := Page.read_eq f.data offset kind
  refine ⟨Page.readCut_eq hroom offset kind, fun v => Page.read_eq_ok_iff, fun v h => ?_, ?_, ?_,
    fun e h => ?_⟩
  · obtain ⟨rfl, -, -⟩ := Page.read_eq_ok_iff.1 h
    exact write_of_read h
  · rw [← Page.whole_iff]
    exact hinvalid.trans Value.decode_eq_notUtf8_iff
  · rw [← Page.whole_iff]
    exact hout.trans Value.decode_eq_short_iff
  · unfold read Page.read at h
    split at h
    · exact .inr ⟨0, (Except.error.inj h).symm⟩
    · split at h
      · cases h
      · exact .inr ⟨_, (Except.error.inj h).symm⟩
      · exact .inl (Except.error.inj h).symm

end Frame

/-- On every page, whatever bytes are on it, a value is written at an offset just where it fits;
then it is read back from there, if its length can be told in the four bytes before its run, and no
byte outside its place changes. A write that is refused changes nothing. What is read at an offset
is written there, a text that is none is told as such where its length and its bytes are there, and
otherwise bytes are missing. Neither a write nor a read asks for bytes that there are not. -/
theorem page_round_trip {f : Frame} (hroom : Page.headerSize < f.data.length)
    (hlimit : f.data.length < memoryLimit) :
    (∀ offset v, ((∃ g, f.write offset v = .ok g) ↔ offset + v.size ≤ f.capacity) ∧
      (∀ g, f.write offset v = .ok g → f.Stored g offset v) ∧
      ∀ e, f.write offset v = .error e → f.Refused offset v e) ∧
    ∀ offset kind, f.Readable offset kind := by
  have hword : f.data.length < wordLimit 8 :=
    Nat.lt_of_lt_of_le hlimit (Nat.div_le_self ..)
  exact ⟨fun offset v => ⟨f.write_iff offset v, fun _ => Frame.stored_of_write hword,
    fun _ => Frame.refused_of_write (Nat.le_of_lt hroom)⟩,
    fun offset kind => Frame.readable (Nat.le_of_lt hroom) offset kind⟩

/-- A page of twelve bytes behind a header, where the first four are the length of a run of one
byte, which is not a text. -/
def garbled : Frame := { id := 0, data := List.replicate 11 0 ++ 1 :: List.replicate 8 255 }

/-- A text that ends where the page ends is stored, one byte further on it is refused, and so it is
at the last offset that there is; no text is read at the start of the page, nor anywhere near its
end. -/
theorem page_round_trip_garbled : Page.headerSize < garbled.data.length ∧
    garbled.data.length < memoryLimit ∧
    (∃ g, garbled.write 6 (.text "é") = .ok g ∧ garbled.Stored g 6 (.text "é")) ∧
    (∀ offset ∈ [7, wordLimit 8 - 1], ∃ e, garbled.write offset (.text "é") = .error e ∧
      garbled.Refused offset (.text "é") e) ∧
    garbled.read 0 .text = .error .invalidUtf8 ∧
    ∀ offset ∈ [4, 9, 12, wordLimit 8 - 1], ∃ needed,
      garbled.read offset .text = .error (.outOfBounds offset needed garbled.capacity) := by
  have hroom : Page.headerSize < garbled.data.length := by decide
  have hlimit : garbled.data.length < memoryLimit := by decide
  have hbehind : ∀ offset ∈ [7, wordLimit 8 - 1],
      ¬ offset + (Value.text "é").size ≤ garbled.capacity := by decide
  have hbroken : ∀ offset ∈ [4, 9, 12, wordLimit 8 - 1],
      ¬ Page.Holds garbled.data offset .text := by decide
  obtain ⟨hwrite, hread⟩ := page_round_trip hroom hlimit
  refine ⟨hroom, hlimit, ?_, fun offset hoffset => ?_, ?_, fun offset hoffset => ?_⟩
  · obtain ⟨hfits, hstored, -⟩ := hwrite 6 (.text "é")
    obtain ⟨g, hg⟩ := hfits.2 (by decide)
    exact ⟨g, hg, hstored g hg⟩
  · obtain ⟨hfits, -, hrefused⟩ := hwrite offset (.text "é")
    cases hw : garbled.write offset (.text "é") with
    | ok g => exact absurd (hfits.1 ⟨g, hw⟩) (hbehind offset hoffset)
    | error e => exact ⟨e, rfl, hrefused e hw⟩
  · refine (hread 0 .text).invalid.2 ⟨rfl, by decide, ?_⟩
    exact Value.ofUtf8?_eq_none_iff.1 (by decide)
  · exact (hread offset .text).outside.2 (hbroken offset hoffset)

/-- The length before a run of 2³² bytes is told in four bytes as nothing. -/
theorem Frame.read_of_overlong {f g : Frame} {offset : Nat} {bs : Bytes}
    (hlimit : f.data.length < wordLimit 8) (hbs : bs.length = wordLimit 4)
    (h : f.write offset (.bytes bs) = .ok g) : g.read offset .bytes = .ok (.bytes []) := by
  have hinside := (stored_of_write hlimit h).inside
  refine Page.read_eq_ok_iff.2 ⟨rfl, by decide, ?_⟩
  have hfirst : (((Page.payload g.data).drop offset).take (Value.bytes bs).size).take 4 =
      bigEndian 4 bs.length := by
    rw [hinside]
    exact List.take_left' (length_bigEndian 4 _)
  have hsize : 4 ≤ (Value.bytes bs).size := Nat.le_add_right 4 _
  rw [List.take_take, Nat.min_eq_left hsize, hbs] at hfirst
  rw [show (Value.bytes []).size = 4 from rfl, hfirst]
  decide

def vast : Frame := { id := 0, data := List.replicate (Page.headerSize + (4 + wordLimit 4)) 0 }

/-- Eight bytes behind a header, of which the first four announce a run of a hundred and the others
begin no text. -/
def promising : Frame := { id := 0, data := List.replicate 11 0 ++ 100 :: List.replicate 4 255 }

/-- A run of 2³² bytes is written and not read back. And where the four bytes before a run are there
but not all of the run, what is there of it is not looked at, text or not. -/
theorem not_page_round_trip :
    (Page.headerSize < vast.data.length ∧ vast.data.length < memoryLimit ∧
      ∃ g, vast.write 0 (.bytes (List.replicate (wordLimit 4) 0)) = .ok g ∧
        g.read 0 .bytes = .ok (.bytes []) ∧
        Value.bytes [] ≠ .bytes (List.replicate (wordLimit 4) 0)) ∧
    (4 ≤ promising.capacity ∧ (∀ s, utf8 s ≠ (Page.payload promising.data).drop 4) ∧
      promising.read 0 .text = .error (.outOfBounds 0 104 8)) := by
  have hlength : vast.data.length = Page.headerSize + (4 + wordLimit 4) := List.length_replicate
  have hlimit : vast.data.length < memoryLimit := by
    rw [hlength]
    decide
  have hrun : (List.replicate (wordLimit 4) (0 : UInt8)).length = wordLimit 4 :=
    List.length_replicate
  have hfits : 0 + (Value.bytes (List.replicate (wordLimit 4) 0)).size ≤ vast.capacity := by
    rw [Value.size, hrun, Frame.capacity, Page.capacity, hlength]
    decide
  refine ⟨⟨?_, hlimit, ?_⟩, by decide, ?_, rfl⟩
  · rw [hlength]
    decide
  · obtain ⟨g, hg⟩ := (vast.write_iff 0 _).2 hfits
    have hword : vast.data.length < wordLimit 8 := Nat.lt_of_lt_of_le hlimit (Nat.div_le_self ..)
    refine ⟨g, hg, Frame.read_of_overlong hword hrun hg, fun he => ?_⟩
    have hnone : 0 = wordLimit 4 := (congrArg Value.runLength he).trans hrun
    exact absurd hnone (by decide)
  · exact Value.ofUtf8?_eq_none_iff.1 (by decide)

end PagedStore
